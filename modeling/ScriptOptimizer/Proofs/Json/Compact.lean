import ScriptOptimizer.Json
import ScriptOptimizer.Proofs.Syntax.Bare
import ScriptOptimizer.Proofs.Text.Utf8

/-!
Compact texts say where they end. In front of a comma or a closing bracket the text of a document is
told from what follows it, so equal texts of arrays and objects have equal texts of their items and
fields one by one, and equal strings of well-formed text quote the same text.
-/

namespace ScriptOptimizer.Json

/-! ### Numbers and words -/

/-- Is it a byte of a number or of a word? -/
def isBare (b : UInt8) : Bool :=
  b = 43 || b = 45 || b = 46 || Bytes.isDigit b || (97 ≤ b && b ≤ 122)

structure Bare (text : Bytes) : Prop where
  ne_nil : text ≠ []
  bytes : ∀ b ∈ text, isBare b = true

theorem digits_ofNat (n : Nat) : ∀ b ∈ Bytes.ofNat n, Bytes.isDigit b = true := by
  intro b hb
  obtain ⟨c, hc, rfl⟩ := List.mem_map.1 hb
  obtain ⟨hByte, hLow, hHigh⟩ :=
    Utf8.toNat_byte (Nat.isDigit_of_mem_toDigits (by decide) (by decide) hc)
  simp only [Bytes.isDigit, UInt8.le_iff_toNat_le, hByte, Bool.and_eq_true, decide_eq_true_eq]
  exact ⟨hLow, hHigh⟩

-- `decide` on the right side may run through every byte there is; the test runs through the text.
theorem isBare_of_all {text : Bytes} (h : text.all isBare = true) : ∀ b ∈ text, isBare b = true :=
  List.all_eq_true.1 h

theorem isBare_of_digits {text : Bytes} (h : ∀ b ∈ text, Bytes.isDigit b = true) :
    ∀ b ∈ text, isBare b = true := by
  intro b hb
  simp [isBare, h b hb]

theorem Bare.cons {text : Bytes} {b : UInt8} (hb : isBare b = true) (h : Bare text) :
    Bare (b :: text) where
  ne_nil := List.cons_ne_nil b text
  bytes := List.forall_mem_cons.2 ⟨hb, h.bytes⟩

theorem bare_ofNat (n : Nat) : Bare (Bytes.ofNat n) where
  ne_nil := by simp [Bytes.ofNat, Nat.toDigits_ne_nil]
  bytes := isBare_of_digits (digits_ofNat n)

theorem bare_ofInt (i : Int) : Bare (Bytes.ofInt i) := by
  unfold Bytes.ofInt
  split
  · exact (bare_ofNat _).cons rfl
  · exact bare_ofNat _

theorem mem_of_mem_trimEnd {drop : UInt8 → Bool} {text : Bytes} {b : UInt8}
    (h : b ∈ Bytes.trimEnd drop text) : b ∈ text := by
  simp only [Bytes.trimEnd, List.mem_reverse] at h
  exact List.mem_reverse.1 ((List.dropWhile_sublist _).subset h)

theorem digits_shortest (x : Binary64) : ∀ b ∈ x.shortest.digits, Bytes.isDigit b = true := by
  unfold Binary64.shortest
  dsimp only
  split
  · exact List.all_eq_true.1 (by decide)
  · intro b hb
    exact digits_ofNat _ b (mem_of_mem_trimEnd hb)

theorem bare_positional (d : DecimalDigits) (h : ∀ b ∈ d.digits, Bytes.isDigit b = true) :
    Bare d.positional := by
  have hDigits := isBare_of_digits h
  have hZeros (n : Nat) : ∀ b ∈ Bytes.replicate n 48, isBare b = true := by
    intro b hb
    rw [List.eq_of_mem_replicate hb]
    rfl
  unfold DecimalDigits.positional
  dsimp only
  by_cases hPoint : d.point ≤ 0
  · rw [if_pos hPoint]
    refine ⟨by simp [Bytes.ofString], ?_⟩
    rw [List.forall_mem_append, List.forall_mem_append]
    exact ⟨⟨isBare_of_all (by decide), hZeros _⟩, hDigits⟩
  rw [if_neg hPoint]
  by_cases hShort : (d.digits.length : Int) ≤ d.point
  · rw [if_pos hShort]
    constructor
    · intro hNil
      have := congrArg List.length hNil
      simp only [Bytes.replicate, List.length_append, List.length_replicate,
        List.length_nil] at this
      omega
    · exact List.forall_mem_append.2 ⟨hDigits, hZeros _⟩
  · rw [if_neg hShort]
    constructor
    · simp [Bytes.ofString]
    · rw [List.forall_mem_append, List.forall_mem_append]
      exact ⟨⟨fun b hb => hDigits b (List.mem_of_mem_take hb), isBare_of_all (by decide)⟩,
        fun b hb => hDigits b (List.mem_of_mem_drop hb)⟩

theorem bare_scientific (d : DecimalDigits) (h : ∀ b ∈ d.digits, Bytes.isDigit b = true) :
    Bare d.scientific := by
  have hDigits := isBare_of_digits h
  have hFraction : ∀ b ∈ d.digits.drop 1, isBare b = true := fun b hb =>
    hDigits b (List.mem_of_mem_drop hb)
  have hSign : ∀ b ∈ Bytes.ofString (if d.point - 1 < 0 then "e-" else "e+"), isBare b = true := by
    split <;> exact isBare_of_all (by decide)
  have hExponent := bare_ofNat (d.point - 1).natAbs
  unfold DecimalDigits.scientific
  constructor
  · exact List.append_ne_nil_of_right_ne_nil _ hExponent.ne_nil
  · simp only [List.forall_mem_append]
    refine ⟨⟨⟨fun b hb => hDigits b (List.mem_of_mem_take hb), ?_⟩, hSign⟩, hExponent.bytes⟩
    split
    · exact List.forall_mem_nil _
    · exact List.forall_mem_append.2 ⟨isBare_of_all (by decide), hFraction⟩

theorem bare_jsonText (x : Binary64) : Bare x.jsonText := by
  have hBody : Bare (if x.shortest.isPositional then x.shortest.positional
      else x.shortest.scientific) := by
    split
    · exact bare_positional _ (digits_shortest x)
    · exact bare_scientific _ (digits_shortest x)
  unfold Binary64.jsonText
  dsimp only
  split
  · exact hBody.cons rfl
  · exact hBody

/-! ### Strings -/

/-- A text that can stand between quotes: a quote stands behind a backslash only, and a byte behind
every backslash. -/
inductive Body : Bytes → Prop
  | nil : Body []
  | plain {b : UInt8} {rest : Bytes} : b ≠ 34 → b ≠ 92 → Body rest → Body (b :: rest)
  | escaped {b : UInt8} {rest : Bytes} : Body rest → Body (92 :: b :: rest)

namespace Body

variable {u v r s : Bytes}

theorem append (hu : Body u) (hv : Body v) : Body (u ++ v) := by
  induction hu with
  | nil => exact hv
  | plain hQuote hSlash _ ih => exact plain hQuote hSlash ih
  | escaped _ ih => exact escaped ih

theorem of_forall {text : Bytes} (h : ∀ b ∈ text, b ≠ 34 ∧ b ≠ 92) : Body text := by
  induction text with
  | nil => exact nil
  | cons b rest ih =>
    obtain ⟨⟨hQuote, hSlash⟩, hRest⟩ := List.forall_mem_cons.1 h
    exact plain hQuote hSlash (ih hRest)

/-- A string ends at the first quote that may end it. -/
theorem cut (hu : Body u) (hv : Body v) (h : u ++ 34 :: r = v ++ 34 :: s) : u = v ∧ r = s := by
  induction hu generalizing v with
  | nil =>
    cases hv with
    | nil => exact ⟨rfl, (List.cons.inj h).2⟩
    | plain hQuote => exact absurd (List.cons.inj h).1.symm hQuote
    | escaped => cases (List.cons.inj h).1
  | plain hQuote hSlash _ ih =>
    cases hv with
    | nil => exact absurd (List.cons.inj h).1 hQuote
    | plain _ _ hv =>
      rw [List.cons_append, List.cons_append, List.cons.injEq] at h
      obtain ⟨rfl, hRest⟩ := h
      obtain ⟨rfl, hAfter⟩ := ih hv hRest
      exact ⟨rfl, hAfter⟩
    | escaped => exact absurd (List.cons.inj h).1 hSlash
  | escaped _ ih =>
    cases hv with
    | nil => cases (List.cons.inj h).1
    | plain _ hSlash => exact absurd (List.cons.inj h).1.symm hSlash
    | escaped hv =>
      simp only [List.cons_append, List.cons.injEq, true_and] at h
      obtain ⟨rfl, hRest⟩ := h
      obtain ⟨rfl, hAfter⟩ := ih hv hRest
      exact ⟨rfl, hAfter⟩

end Body

/-- Is the code point one that a string escapes? -/
def isEscaped (rune : Nat) : Bool :=
  rune < 0x20 || rune = 0x22 || rune = 0x5C || rune = 0x2028 || rune = 0x2029

theorem escape_plain {rune : Nat} (h : isEscaped rune = false) :
    escape rune = Utf8.encode rune := by
  simp only [isEscaped, Bool.or_eq_false_iff, decide_eq_false_iff_not] at h
  unfold escape
  split
  all_goals try omega
  rw [if_neg (by omega)]

/-- The code points that a string escapes. -/
def escapes : List Nat := List.range 0x20 ++ [0x22, 0x5C, 0x2028, 0x2029]

theorem mem_escapes {rune : Nat} (h : isEscaped rune = true) : rune ∈ escapes := by
  simpa [isEscaped, escapes, or_assoc] using h

theorem escapes_body : ∀ n ∈ escapes, (escape n).head? = some 92 ∧ (escape n).length ≠ 1 ∧
    ∀ b ∈ (escape n).drop 2, b ≠ 34 ∧ b ≠ 92 := by
  have hHead : (escapes.all fun n => decide ((escape n).head? = some 92)) = true := by
    decide
  have hLength : (escapes.all fun n => decide ((escape n).length ≠ 1)) = true := by decide
  have hRest : (escapes.all fun n => ((escape n).drop 2).all fun b => decide (b ≠ 34 ∧ b ≠ 92)) =
      true := by
    decide
  simp only [List.all_eq_true, decide_eq_true_eq] at hHead hLength hRest
  exact fun n hn => ⟨hHead n hn, hLength n hn, hRest n hn⟩

/-- Escapes are told apart where they stand: none begins with another. -/
theorem escapes_apart : ∀ m ∈ escapes, ∀ n ∈ escapes, escape m <+: escape n → m = n := by
  decide

/-- A code point that is written as it is has neither a quote nor a backslash. -/
theorem encode_plain {rune : Nat} (h : isEscaped rune = false) :
    ∀ b ∈ Utf8.encode rune, b ≠ 34 ∧ b ≠ 92 := by
  intro b hb
  by_cases hLow : rune < 0x80
  · simp only [isEscaped, Bool.or_eq_false_iff, decide_eq_false_iff_not] at h
    obtain rfl : b = rune.toUInt8 := by simpa [Utf8.encode, hLow] using hb
    simp only [ne_eq, ← UInt8.toNat_inj, Utf8.toNat_toUInt8 (show rune < 256 by omega)]
    exact ⟨h.1.1.1.2, h.1.1.2⟩
  · have := Utf8.encode_high (by omega) b hb
    constructor
    all_goals
      rintro rfl
      exact absurd this (by decide)

theorem escape_ne_nil (rune : Nat) : escape rune ≠ [] := by
  cases hEscaped : isEscaped rune with
  | true =>
    intro hNil
    have := (escapes_body rune (mem_escapes hEscaped)).1
    rw [hNil] at this
    cases this
  | false =>
    rw [escape_plain hEscaped]
    intro hNil
    obtain ⟨n, hDecode⟩ := Utf8.decode?_encode rune
    rw [hNil] at hDecode
    cases hDecode

theorem body_escape (rune : Nat) : Body (escape rune) := by
  cases hEscaped : isEscaped rune with
  | true =>
    obtain ⟨hHead, hLength, hRest⟩ := escapes_body rune (mem_escapes hEscaped)
    revert hHead hLength hRest
    match escape rune with
    | [] => exact nofun
    | [b] => exact fun _ h => absurd rfl h
    | b :: c :: rest =>
      intro hHead _ hRest
      obtain rfl : b = 92 := by simpa using hHead
      exact .escaped (.of_forall hRest)
  | false =>
    rw [escape_plain hEscaped]
    exact .of_forall (encode_plain hEscaped)

theorem quote_eq (text : Bytes) :
    quote text = 34 :: ((Utf8.points text).flatMap escape ++ [34]) := by
  rw [Utf8.points, List.flatMap_map]
  rfl

theorem body_points (runes : List Nat) : Body (runes.flatMap escape) := by
  induction runes with
  | nil => exact .nil
  | cons rune rest ih =>
    rw [List.flatMap_cons]
    exact (body_escape rune).append ih

/-- A string is told from what follows it. -/
theorem quote_cut {u v r s : Bytes} (h : quote u ++ r = quote v ++ s) :
    quote u = quote v ∧ r = s := by
  simp only [quote_eq, List.cons_append, List.append_assoc, List.nil_append, List.cons.injEq,
    true_and] at h ⊢
  obtain ⟨hBody, hRest⟩ := (body_points _).cut (body_points _) h
  exact ⟨by rw [hBody], hRest⟩

/-- A code point in a string is told from what follows it. -/
theorem escape_cut {m n : Nat} {r s : Bytes} (hm : Utf8.Point m) (hn : Utf8.Point n)
    (h : escape m ++ r = escape n ++ s) : m = n ∧ r = s := by
  -- What is escaped starts with a backslash, which stands in nothing that is not.
  have hMixed {m n : Nat} {r s : Bytes} (hm : isEscaped m = true) (hn : isEscaped n = false)
      (h : escape m ++ r = escape n ++ s) : False := by
    have hHead : (escape n ++ s).head? = some 92 := by
      rw [← h, List.head?_append, (escapes_body m (mem_escapes hm)).1]
      rfl
    obtain ⟨b, rest, hEscape⟩ := List.exists_cons_of_ne_nil (escape_ne_nil n)
    rw [hEscape] at hHead
    obtain rfl : b = 92 := by simpa using hHead
    rw [escape_plain hn] at hEscape
    exact (encode_plain hn 92 (by simp [hEscape])).2 rfl
  suffices hSame : m = n by
    subst hSame
    exact ⟨rfl, List.append_cancel_left h⟩
  cases hEscaped : isEscaped m with
  | true =>
    cases hOther : isEscaped n with
    | true =>
      have hm := mem_escapes hEscaped
      have hn := mem_escapes hOther
      rcases List.append_eq_append_iff.1 h with ⟨more, hMore, -⟩ | ⟨more, hMore, -⟩
      · exact escapes_apart m hm n hn ⟨more, hMore.symm⟩
      · exact (escapes_apart n hn m hm ⟨more, hMore.symm⟩).symm
    | false => exact (hMixed hEscaped hOther h).elim
  | false =>
    cases hOther : isEscaped n with
    | true => exact (hMixed hOther hEscaped h.symm).elim
    | false =>
      obtain ⟨c, hc⟩ := hm
      obtain ⟨d, hd⟩ := hn
      rw [escape_plain hEscaped, escape_plain hOther, Utf8.encode_of_decode? hc,
        Utf8.encode_of_decode? hd] at h
      have hDecode := Utf8.decode?_append r hc
      rw [h, Utf8.decode?_append s hd] at hDecode
      exact (Prod.mk.inj (Option.some.inj hDecode)).1.symm

theorem points_eq_of_escape {ms ns : List Nat} (hms : ∀ m ∈ ms, Utf8.Point m)
    (hns : ∀ n ∈ ns, Utf8.Point n) (h : ms.flatMap escape = ns.flatMap escape) : ms = ns := by
  induction ms generalizing ns with
  | nil =>
    cases ns with
    | nil => rfl
    | cons n ns =>
      rw [List.flatMap_cons] at h
      exact absurd (List.append_eq_nil_iff.1 h.symm).1 (escape_ne_nil n)
  | cons m ms ih =>
    cases ns with
    | nil =>
      rw [List.flatMap_cons] at h
      exact absurd (List.append_eq_nil_iff.1 h).1 (escape_ne_nil m)
    | cons n ns =>
      obtain ⟨hFirst, hMore⟩ := List.forall_mem_cons.1 hms
      obtain ⟨hOther, hOthers⟩ := List.forall_mem_cons.1 hns
      rw [List.flatMap_cons, List.flatMap_cons] at h
      obtain ⟨rfl, hRest⟩ := escape_cut hFirst hOther h
      rw [ih hMore hOthers hRest]

/-- Well-formed texts with the same string are the same. -/
theorem quote_inj {u v : Bytes} (hu : Utf8.Text u) (hv : Utf8.Text v) (h : quote u = quote v) :
    u = v := by
  refine hu.eq_of_points hv (points_eq_of_escape hu.points_point hv.points_point ?_)
  rw [quote_eq, quote_eq, List.cons.injEq] at h
  exact List.append_cancel_right h.2

/-! ### Documents -/

/-- What may follow a document: nothing, a comma or the end of an array or object. -/
def Closes (text : Bytes) : Prop := ∀ b ∈ text.head?, b = 44 ∨ b = 93 ∨ b = 125

theorem Bare.cut {u v r s : Bytes} (hu : Bare u) (hv : Bare v) (hr : Closes r) (hs : Closes s)
    (h : u ++ r = v ++ s) : u = v ∧ r = s := by
  have hStop {text : Bytes} (h : Closes text) : text.takeWhile isBare = [] := by
    cases text with
    | nil => rfl
    | cons b rest =>
      have hBare : isBare b = false := by rcases h b rfl with rfl | rfl | rfl <;> rfl
      simp [hBare]
  have hRun {text rest : Bytes} (hText : Bare text) (hRest : Closes rest) :
      (text ++ rest).takeWhile isBare = text := by
    rw [List.takeWhile_append_of_pos hText.bytes, hStop hRest, List.append_nil]
  have hSame : u = v := by rw [← hRun hu hr, h, hRun hv hs]
  subst hSame
  exact ⟨rfl, List.append_cancel_left h⟩

/-- The text of the document is told from what may follow it. -/
def Cuts (j : Json) : Prop := ∀ (k : Json) (r s : Bytes), Closes r → Closes s →
  j.compact ++ r = k.compact ++ s → j.compact = k.compact ∧ r = s

/-- The first byte of strings, arrays and objects, by which their texts differ from each other and
from numbers and words. -/
def lead : Json → Option UInt8
  | text _ => some 34
  | array _ => some 91
  | object _ => some 123
  | _ => none

theorem bare_of_lead {j : Json} (h : j.lead = none) : Bare j.compact := by
  cases j with
  | null => exact ⟨by decide, isBare_of_all (by decide)⟩
  | bool value => cases value <;> exact ⟨by decide, isBare_of_all (by decide)⟩
  | int value =>
    rw [compact]
    exact bare_ofInt value
  | number value =>
    rw [compact]
    exact bare_jsonText value
  | _ => cases h

theorem head_of_lead {j : Json} {b : UInt8} (h : j.lead = some b) :
    ∃ rest, j.compact = b :: rest ∧ b ∈ [34, 91, 123] := by
  cases j with
  | text value =>
    cases h
    exact ⟨_, by rw [compact, quote_eq], by decide⟩
  | array items =>
    cases h
    exact ⟨_, by rw [compact]; rfl, by decide⟩
  | object fields =>
    cases h
    exact ⟨_, by rw [compact]; rfl, by decide⟩
  | _ => cases h

/-- Texts that go on alike are of the same sort. -/
theorem lead_eq {j k : Json} {r s : Bytes} (h : j.compact ++ r = k.compact ++ s) :
    j.lead = k.lead := by
  have hMixed {j k : Json} {b : UInt8} {r s : Bytes} (hj : j.lead = none) (hk : k.lead = some b)
      (h : j.compact ++ r = k.compact ++ s) : False := by
    obtain ⟨rest, hText, hMem⟩ := head_of_lead hk
    have hBare := bare_of_lead hj
    obtain ⟨c, more, hFirst⟩ := List.exists_cons_of_ne_nil hBare.ne_nil
    rw [hText, hFirst, List.cons_append, List.cons_append, List.cons.injEq] at h
    have hByte := hBare.bytes c (by simp [hFirst])
    rw [h.1] at hByte
    simp only [List.mem_cons, List.not_mem_nil, or_false] at hMem
    rcases hMem with rfl | rfl | rfl <;> cases hByte
  cases hj : j.lead with
  | none =>
    cases hk : k.lead with
    | none => rfl
    | some c => exact (hMixed hj hk h).elim
  | some b =>
    cases hk : k.lead with
    | none => exact (hMixed hk hj h.symm).elim
    | some c =>
      obtain ⟨rest, hText, -⟩ := head_of_lead hj
      obtain ⟨more, hOther, -⟩ := head_of_lead hk
      rw [hText, hOther, List.cons_append, List.cons_append, List.cons.injEq] at h
      rw [h.1]

/-- Each of the items behind a comma. -/
def moreItems (items : List Json) : Bytes := items.flatMap fun item => 44 :: item.compact

/-- Each of the fields behind a comma. -/
def moreFields (fields : List (Bytes × Json)) : Bytes :=
  fields.flatMap fun field => 44 :: (quote field.1 ++ 58 :: field.2.compact)

theorem compactItems_cons (item : Json) (items : List Json) :
    compactItems (item :: items) = item.compact ++ moreItems items := by
  induction items generalizing item with
  | nil => simp [compactItems, moreItems]
  | cons next items ih =>
    rw [compactItems, ih, moreItems, moreItems, List.flatMap_cons, List.append_assoc]
    · rfl
    · exact List.cons_ne_nil _ _

theorem compactFields_cons (field : Bytes × Json) (fields : List (Bytes × Json)) :
    compactFields (field :: fields) =
      quote field.1 ++ 58 :: (field.2.compact ++ moreFields fields) := by
  induction fields generalizing field with
  | nil =>
    obtain ⟨key, value⟩ := field
    rw [compactFields, moreFields, List.flatMap_nil, List.append_nil, List.append_assoc]
    rfl
  | cons next fields ih =>
    obtain ⟨key, value⟩ := field
    rw [compactFields, ih, moreFields, moreFields, List.flatMap_cons]
    · simp only [List.append_assoc, List.cons_append]
      rfl
    · exact List.cons_ne_nil _ _

theorem closes_moreItems (items : List Json) (r : Bytes) : Closes (moreItems items ++ 93 :: r) := by
  intro b hb
  cases items with
  | nil =>
    obtain rfl : 93 = b := by simpa [moreItems] using hb
    decide
  | cons item items =>
    obtain rfl : 44 = b := by simpa [moreItems] using hb
    decide

theorem closes_moreFields (fields : List (Bytes × Json)) (r : Bytes) :
    Closes (moreFields fields ++ 125 :: r) := by
  intro b hb
  cases fields with
  | nil =>
    obtain rfl : 125 = b := by simpa [moreFields] using hb
    decide
  | cons field fields =>
    obtain rfl : 44 = b := by simpa [moreFields] using hb
    decide

/-- Items behind commas are told from each other, if each of them is told from what follows it. -/
theorem moreItems_cut {items others : List Json} {r s : Bytes} (hItems : ∀ j ∈ items, j.Cuts)
    (h : moreItems items ++ 93 :: r = moreItems others ++ 93 :: s) :
    List.Forall₂ (Alike compact) items others ∧ r = s := by
  induction items generalizing others with
  | nil =>
    cases others with
    | nil => exact ⟨.nil, (List.cons.inj h).2⟩
    | cons other others => cases (List.cons.inj h).1
  | cons item items ih =>
    cases others with
    | nil => cases (List.cons.inj h).1
    | cons other others =>
      obtain ⟨hFirst, hMore⟩ := List.forall_mem_cons.1 hItems
      simp only [moreItems, List.flatMap_cons, List.cons_append, List.append_assoc, List.cons.injEq,
        true_and] at h
      obtain ⟨hSame, hRest⟩ := hFirst other _ _ (closes_moreItems items r)
        (closes_moreItems others s) h
      obtain ⟨hSames, hAfter⟩ := ih hMore hRest
      exact ⟨.cons hSame hSames, hAfter⟩

/-- Fields that are written alike: their values are. -/
def AlikeField (f g : Bytes × Json) : Prop := quote f.1 = quote g.1 ∧ Alike compact f.2 g.2

theorem field_cut {f g : Bytes × Json} {r s : Bytes} (hf : f.2.Cuts) (hr : Closes r)
    (hs : Closes s) (h : quote f.1 ++ 58 :: (f.2.compact ++ r) =
      quote g.1 ++ 58 :: (g.2.compact ++ s)) : AlikeField f g ∧ r = s := by
  obtain ⟨hKey, hRest⟩ := quote_cut h
  obtain ⟨hValue, hAfter⟩ := hf g.2 r s hr hs (List.cons.inj hRest).2
  exact ⟨⟨hKey, hValue⟩, hAfter⟩

theorem moreFields_cut {fields others : List (Bytes × Json)} {r s : Bytes}
    (hFields : ∀ f ∈ fields, f.2.Cuts)
    (h : moreFields fields ++ 125 :: r = moreFields others ++ 125 :: s) :
    List.Forall₂ AlikeField fields others ∧ r = s := by
  induction fields generalizing others with
  | nil =>
    cases others with
    | nil => exact ⟨.nil, (List.cons.inj h).2⟩
    | cons other others => cases (List.cons.inj h).1
  | cons field fields ih =>
    cases others with
    | nil => cases (List.cons.inj h).1
    | cons other others =>
      obtain ⟨hFirst, hMore⟩ := List.forall_mem_cons.1 hFields
      simp only [moreFields, List.flatMap_cons, List.cons_append, List.append_assoc,
        List.cons.injEq, true_and] at h
      obtain ⟨hSame, hRest⟩ := field_cut hFirst (closes_moreFields fields r)
        (closes_moreFields others s) h
      obtain ⟨hSames, hAfter⟩ := ih hMore hRest
      exact ⟨.cons hSame hSames, hAfter⟩

/-- No document begins with the end of an array or object. -/
theorem compact_head (j : Json) : ∃ b rest, j.compact = b :: rest ∧ b ≠ 93 := by
  cases hLead : j.lead with
  | none =>
    have hBare := bare_of_lead hLead
    obtain ⟨b, rest, hText⟩ := List.exists_cons_of_ne_nil hBare.ne_nil
    refine ⟨b, rest, hText, ?_⟩
    rintro rfl
    have := hBare.bytes 93 (by simp [hText])
    cases this
  | some b =>
    obtain ⟨rest, hText, hMem⟩ := head_of_lead hLead
    refine ⟨b, rest, hText, ?_⟩
    rintro rfl
    exact absurd hMem (by decide)

theorem items_cut {items others : List Json} {r s : Bytes} (hItems : ∀ j ∈ items, j.Cuts)
    (h : compactItems items ++ 93 :: r = compactItems others ++ 93 :: s) :
    List.Forall₂ (Alike compact) items others ∧ r = s := by
  cases items with
  | nil =>
    cases others with
    | nil => exact ⟨.nil, (List.cons.inj h).2⟩
    | cons other others =>
      obtain ⟨b, rest, hText, hByte⟩ := compact_head other
      rw [compactItems_cons, hText] at h
      exact absurd (List.cons.inj h).1.symm hByte
  | cons item items =>
    cases others with
    | nil =>
      obtain ⟨b, rest, hText, hByte⟩ := compact_head item
      rw [compactItems_cons, hText] at h
      exact absurd (List.cons.inj h).1 hByte
    | cons other others =>
      obtain ⟨hFirst, hMore⟩ := List.forall_mem_cons.1 hItems
      rw [compactItems_cons, compactItems_cons, List.append_assoc, List.append_assoc] at h
      obtain ⟨hSame, hRest⟩ := hFirst other _ _ (closes_moreItems items r)
        (closes_moreItems others s) h
      obtain ⟨hSames, hAfter⟩ := moreItems_cut hMore hRest
      exact ⟨.cons hSame hSames, hAfter⟩

theorem fields_cut {fields others : List (Bytes × Json)} {r s : Bytes}
    (hFields : ∀ f ∈ fields, f.2.Cuts)
    (h : compactFields fields ++ 125 :: r = compactFields others ++ 125 :: s) :
    List.Forall₂ AlikeField fields others ∧ r = s := by
  cases fields with
  | nil =>
    cases others with
    | nil => exact ⟨.nil, (List.cons.inj h).2⟩
    | cons other others =>
      rw [compactFields_cons, quote_eq] at h
      cases (List.cons.inj h).1
  | cons field fields =>
    cases others with
    | nil =>
      rw [compactFields_cons, quote_eq] at h
      cases (List.cons.inj h).1
    | cons other others =>
      obtain ⟨hFirst, hMore⟩ := List.forall_mem_cons.1 hFields
      simp only [compactFields_cons, List.append_assoc, List.cons_append] at h
      obtain ⟨hSame, hRest⟩ := field_cut hFirst (closes_moreFields fields r)
        (closes_moreFields others s) h
      obtain ⟨hSames, hAfter⟩ := moreFields_cut hMore hRest
      exact ⟨.cons hSame hSames, hAfter⟩

theorem compact_array (items : List Json) (r : Bytes) :
    (array items).compact ++ r = 91 :: (compactItems items ++ 93 :: r) := by
  rw [compact, List.append_assoc, List.append_assoc]
  rfl

theorem compact_object (fields : List (Bytes × Json)) (r : Bytes) :
    (object fields).compact ++ r = 123 :: (compactFields fields ++ 125 :: r) := by
  rw [compact, List.append_assoc, List.append_assoc]
  rfl

/-- The text of every document is told from what may follow it. -/
theorem cuts (j : Json) : j.Cuts := by
  intro k r s hr hs h
  have hLead := lead_eq h
  -- What follows is the same, so what stands before it is.
  suffices hRest : r = s by
    subst hRest
    exact ⟨List.append_cancel_right h, rfl⟩
  match j with
  | null | bool _ | int _ | number _ =>
    exact ((bare_of_lead rfl).cut (bare_of_lead hLead.symm) hr hs h).2
  | text value =>
    cases k with
    | text other =>
      rw [compact, compact] at h
      exact (quote_cut h).2
    | _ => cases hLead
  | array items =>
    cases k with
    | array others =>
      rw [compact_array, compact_array, List.cons.injEq] at h
      exact (items_cut (fun item _ => cuts item) h.2).2
    | _ => cases hLead
  | object fields =>
    cases k with
    | object others =>
      rw [compact_object, compact_object, List.cons.injEq] at h
      exact (fields_cut (fun field _ => cuts field.2) h.2).2
    | _ => cases hLead
termination_by sizeOf j
decreasing_by
  · have hItem : sizeOf item < sizeOf items := List.sizeOf_lt_of_mem ‹item ∈ items›
    simp only [array.sizeOf_spec]
    omega
  · have hField : sizeOf field < sizeOf fields := List.sizeOf_lt_of_mem ‹field ∈ fields›
    obtain ⟨key, value⟩ := field
    simp only [Prod.mk.sizeOf_spec, object.sizeOf_spec] at hField ⊢
    omega

/-- Arrays with the same text have the same texts of items. -/
theorem array_inj {items others : List Json} (h : (array items).compact = (array others).compact) :
    List.Forall₂ (Alike compact) items others := by
  have := congrArg (· ++ []) h
  simp only [compact_array, List.cons.injEq, true_and] at this
  exact (items_cut (fun item _ => cuts item) this).1

/-- Objects with the same text have the same texts of keys and values. -/
theorem object_inj {fields others : List (Bytes × Json)}
    (h : (object fields).compact = (object others).compact) :
    List.Forall₂ AlikeField fields others := by
  have := congrArg (· ++ []) h
  simp only [compact_object, List.cons.injEq, true_and] at this
  exact (fields_cut (fun field _ => cuts field.2) this).1

theorem text_inj {u v : Bytes} (hu : Utf8.Text u) (hv : Utf8.Text v)
    (h : (text u).compact = (text v).compact) : u = v := by
  rw [compact, compact] at h
  exact quote_inj hu hv h

theorem bool_inj {a b : Bool} (h : (bool a).compact = (bool b).compact) : a = b := by
  revert h
  cases a <;> cases b <;> decide

end ScriptOptimizer.Json
