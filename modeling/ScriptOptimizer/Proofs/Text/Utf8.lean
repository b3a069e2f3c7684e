import ScriptOptimizer.Proofs.Token.Respell

/-!
Well-formed text. Such a text is a row of sequences that each stand for one code point; it can be
cut wherever the text behind the cut does not begin in the middle of a sequence, and it is known by
the code points it reads as.
-/

namespace ScriptOptimizer.Utf8

/-- A number that some sequence stands for. -/
def Point (rune : Nat) : Prop := ∃ character, decode? character = some (rune, character.length)

/-- A text of complete sequences only. -/
inductive Text : Bytes → Prop
  | nil : Text []
  | cons {character rest : Bytes} {rune : Nat} :
      decode? character = some (rune, character.length) → Text rest → Text (character ++ rest)

/-- The text does not begin in the middle of a sequence. -/
def Begins (text : Bytes) : Prop := ∀ b ∈ text.head?, isContinuation b = false

/-- The code points that the text reads as. -/
def points (text : Bytes) : List Nat := (runes text).map (·.1)

/-! ### One sequence -/

section

variable {a b c d : UInt8} {character rest : Bytes} {rune width : Nat}

theorem decode?_begins (h : decode? (a :: rest) = some (rune, width)) :
    isContinuation a = false := by
  unfold decode? at h
  unfold isContinuation
  grind

/-- All bytes of a sequence but the first continue it. -/
theorem decode?_continues (h : decode? (a :: rest) = some (rune, rest.length + 1)) :
    ∀ b ∈ rest, isContinuation b = true := by
  unfold decode? at h
  unfold isContinuation at h ⊢
  match rest with
  | [] => simp
  | [b] => grind
  | [b, c] => grind
  | [b, c, d] => grind
  | b :: c :: d :: e :: rest => grind

theorem decode?_one : decode? [a] = some (rune, 1) ↔ a.toNat < 0x80 ∧ rune = a.toNat := by
  simp [decode?, UInt8.le_iff_toNat_le, UInt8.lt_iff_toNat_lt]
  grind

theorem decode?_two : decode? [a, b] = some (rune, 2) ↔
    (0xC2 ≤ a.toNat ∧ a.toNat ≤ 0xDF) ∧ (0x80 ≤ b.toNat ∧ b.toNat ≤ 0xBF) ∧
      rune = extend (a.toNat - 0xC0) b := by
  simp [decode?, isContinuation, UInt8.le_iff_toNat_le, UInt8.lt_iff_toNat_lt]
  grind

theorem decode?_three : decode? [a, b, c] = some (rune, 3) ↔
    (0xE0 ≤ a.toNat ∧ a.toNat ≤ 0xEF) ∧ (0x80 ≤ b.toNat ∧ b.toNat ≤ 0xBF) ∧
      (a.toNat = 0xE0 → 0xA0 ≤ b.toNat) ∧ (a.toNat = 0xED → b.toNat ≤ 0x9F) ∧
      (0x80 ≤ c.toNat ∧ c.toNat ≤ 0xBF) ∧ rune = extend (extend (a.toNat - 0xE0) b) c := by
  simp [decode?, isContinuation, UInt8.le_iff_toNat_le, UInt8.lt_iff_toNat_lt, ← UInt8.toNat_inj,
    apply_ite UInt8.toNat]
  grind

theorem decode?_four : decode? [a, b, c, d] = some (rune, 4) ↔
    (0xF0 ≤ a.toNat ∧ a.toNat ≤ 0xF4) ∧ (0x80 ≤ b.toNat ∧ b.toNat ≤ 0xBF) ∧
      (a.toNat = 0xF0 → 0x90 ≤ b.toNat) ∧ (a.toNat = 0xF4 → b.toNat ≤ 0x8F) ∧
      (0x80 ≤ c.toNat ∧ c.toNat ≤ 0xBF) ∧ (0x80 ≤ d.toNat ∧ d.toNat ≤ 0xBF) ∧
      rune = extend (extend (extend (a.toNat - 0xF0) b) c) d := by
  simp [decode?, isContinuation, UInt8.le_iff_toNat_le, UInt8.lt_iff_toNat_lt, ← UInt8.toNat_inj,
    apply_ite UInt8.toNat]
  grind

theorem toUInt8_eq {n : Nat} (h : n = a.toNat) : n.toUInt8 = a := by
  rw [h]
  exact UInt8.ofNat_toNat

/-- A code point is written as the sequence that it was read from. -/
theorem encode_of_decode? (h : decode? character = some (rune, character.length)) :
    encode rune = character := by
  match character with
  | [] => simp [decode?] at h
  | [a] =>
    obtain ⟨hA, rfl⟩ := decode?_one.1 h
    simp [encode, hA]
  | [a, b] =>
    obtain ⟨hA, hB, hRune⟩ := decode?_two.1 h
    rw [hRune]
    unfold encode extend
    rw [if_neg (by omega), if_pos (by omega)]
    dsimp only
    rw [toUInt8_eq (a := a) (by omega), toUInt8_eq (a := b) (by omega)]
  | [a, b, c] =>
    obtain ⟨hA, hB, hLow, hHigh, hC, hRune⟩ := decode?_three.1 h
    rw [hRune]
    unfold encode extend
    rw [if_neg (by omega), if_neg (by omega), if_neg (by simp [isScalar]; omega), if_pos (by omega)]
    dsimp only
    rw [toUInt8_eq (a := a) (by omega), toUInt8_eq (a := b) (by omega),
      toUInt8_eq (a := c) (by omega)]
  | [a, b, c, d] =>
    obtain ⟨hA, hB, hLow, hHigh, hC, hD, hRune⟩ := decode?_four.1 h
    rw [hRune]
    unfold encode extend
    rw [if_neg (by omega), if_neg (by omega), if_neg (by simp [isScalar]; omega), if_neg (by omega)]
    dsimp only
    rw [toUInt8_eq (a := a) (by omega), toUInt8_eq (a := b) (by omega),
      toUInt8_eq (a := c) (by omega), toUInt8_eq (a := d) (by omega)]
  | a :: b :: c :: d :: e :: rest =>
    simp only [decode?, List.length_cons] at h
    grind

/-- What is decoded as another code point than the one for malformed bytes is a sequence. -/
theorem decode?_of_decode {text : Bytes} {rune size : Nat} (h : decode text = (rune, size))
    (hRune : rune ≠ replacement) : decode? text = some (rune, size) := by
  unfold decode at h
  cases hDecode : decode? text with
  | none =>
    rw [hDecode] at h
    exact absurd (Prod.mk.inj h).1.symm hRune
  | some pair =>
    rw [hDecode] at h
    exact congrArg some h

/-- An ASCII byte is a sequence of its own. -/
theorem decode?_low {b : UInt8} {tail : Bytes} {rune width : Nat}
    (h : decode? (b :: tail) = some (rune, width)) (hLow : b < 0x80) :
    rune = b.toNat ∧ width = 1 := by
  simp only [decode?, hLow, if_true, Option.some.injEq, Prod.mk.injEq] at h
  exact ⟨h.1.symm, h.2.symm⟩

theorem toNat_toUInt8 {n : Nat} (h : n < 256) : n.toUInt8.toNat = n := by
  simpa using h

theorem decode?_high {b : UInt8} {tail : Bytes} {rune : Nat}
    (h : decode? (b :: tail) = some (rune, (b :: tail).length)) (hHigh : ¬b < 0x80) :
    0x80 ≤ rune := by
  refine Nat.le_of_not_lt fun hLow => hHigh ?_
  have hEncode := encode_of_decode? h
  rw [encode, if_pos hLow] at hEncode
  rw [← (List.cons.inj hEncode).1, UInt8.lt_iff_toNat_lt, toNat_toUInt8 (by omega)]
  exact hLow

/-- A digit is one byte. -/
theorem toNat_byte {c : Char} (h : c.isDigit = true) :
    (Bytes.byte c).toNat = c.toNat ∧ 48 ≤ c.toNat ∧ c.toNat ≤ 57 := by
  simp only [Char.isDigit, Bool.and_eq_true, decide_eq_true_eq, ge_iff_le,
    UInt32.le_iff_toNat_le] at h
  have hlow : 48 ≤ c.toNat := h.1
  have hhigh : c.toNat ≤ 57 := h.2
  exact ⟨toNat_toUInt8 (by omega), hlow, hhigh⟩

/-- Every number is written as one sequence. -/
theorem decode?_encode (rune : Nat) :
    ∃ n, decode? (encode rune) = some (n, (encode rune).length) := by
  unfold encode
  dsimp only
  by_cases hOne : rune < 0x80
  · rw [if_pos hOne]
    refine ⟨_, decode?_one.2 ⟨?_, rfl⟩⟩
    rwa [toNat_toUInt8 (by omega)]
  rw [if_neg hOne]
  by_cases hTwo : rune < 0x800
  · rw [if_pos hTwo]
    refine ⟨_, decode?_two.2 ⟨?_, ?_, rfl⟩⟩
    all_goals
      rw [toNat_toUInt8 (by omega)]
      omega
  rw [if_neg hTwo]
  cases hScalar : isScalar rune with
  | false => exact ⟨replacement, rfl⟩
  | true =>
    simp only [isScalar, Bool.or_eq_true, Bool.and_eq_true, decide_eq_true_eq] at hScalar
    rw [if_neg (by decide)]
    by_cases hThree : rune < 0x10000
    · rw [if_pos hThree]
      refine ⟨_, decode?_three.2 ⟨?_, ?_, ?_, ?_, ?_, rfl⟩⟩
      all_goals
        simp (disch := omega) only [toNat_toUInt8]
        omega
    · rw [if_neg hThree]
      refine ⟨_, decode?_four.2 ⟨?_, ?_, ?_, ?_, ?_, ?_, rfl⟩⟩
      all_goals
        simp (disch := omega) only [toNat_toUInt8]
        omega

theorem encode_high {rune : Nat} (h : 0x80 ≤ rune) : ∀ b ∈ encode rune, 0x80 ≤ b.toNat := by
  unfold encode
  dsimp only
  rw [if_neg (by omega)]
  by_cases hTwo : rune < 0x800
  · rw [if_pos hTwo]
    simp (disch := omega) only [List.forall_mem_cons, toNat_toUInt8]
    exact ⟨by omega, by omega, List.forall_mem_nil _⟩
  rw [if_neg hTwo]
  cases hScalar : isScalar rune with
  | false =>
    rw [if_pos (by decide)]
    simp only [List.forall_mem_cons]
    exact ⟨by decide, by decide, by decide, List.forall_mem_nil _⟩
  | true =>
    simp only [isScalar, Bool.or_eq_true, Bool.and_eq_true, decide_eq_true_eq] at hScalar
    rw [if_neg (by decide)]
    by_cases hThree : rune < 0x10000
    · rw [if_pos hThree]
      simp (disch := omega) only [List.forall_mem_cons, toNat_toUInt8]
      exact ⟨by omega, by omega, by omega, List.forall_mem_nil _⟩
    · rw [if_neg hThree]
      simp (disch := omega) only [List.forall_mem_cons, toNat_toUInt8]
      exact ⟨by omega, by omega, by omega, by omega, List.forall_mem_nil _⟩
end

/-! ### Rows of sequences -/

namespace Text

variable {u v character rest : Bytes} {rune : Nat}

theorem single (h : decode? character = some (rune, character.length)) : Text character := by
  simpa using cons h .nil

theorem append (hu : Text u) (hv : Text v) : Text (u ++ v) := by
  induction hu with
  | nil => exact hv
  | cons hDecode _ ih =>
    rw [List.append_assoc]
    exact cons hDecode ih

theorem begins (h : Text u) : Begins u := by
  cases h with
  | nil => exact nofun
  | @cons character rest rune hDecode =>
    cases character with
    | nil => simp [decode?] at hDecode
    | cons a more =>
      intro b hb
      obtain rfl : a = b := by simpa using hb
      exact decode?_begins hDecode

/-- A well-formed text is cut into two where the second does not begin in the middle of a
sequence. -/
theorem split (h : Text (u ++ v)) (hv : Begins v) : Text u ∧ Text v := by
  generalize hText : u ++ v = text at h
  induction h generalizing u with
  | nil =>
    obtain ⟨rfl, rfl⟩ := List.append_eq_nil_iff.1 hText
    exact ⟨nil, nil⟩
  | @cons character rest rune hDecode hRest ih =>
    rcases List.append_eq_append_iff.1 hText with ⟨more, rfl, rfl⟩ | ⟨more, rfl, rfl⟩
    · -- The cut falls into this sequence, so it falls before or behind it.
      cases u with
      | nil => exact ⟨nil, cons hDecode hRest⟩
      | cons a u =>
        cases more with
        | nil =>
          rw [List.append_nil] at hDecode
          exact ⟨single hDecode, hRest⟩
        | cons b more =>
          have hMid := decode?_continues hDecode b (by simp)
          rw [hv b (by simp)] at hMid
          cases hMid
    · obtain ⟨hu, hv⟩ := ih rfl
      exact ⟨cons hDecode hu, hv⟩

end Text

/-! ### The code points of a text -/

section

variable {u v text character rest : Bytes} {rune : Nat}

theorem runesFrom_eq_drop (skip : Nat) (text : Bytes) :
    runesFrom skip text = runes (text.drop skip) := by
  induction skip generalizing text with
  | zero => rfl
  | succ skip ih =>
    cases text with
    | nil => rfl
    | cons b rest => exact ih rest

theorem runes_append (h : decode? character = some (rune, character.length)) :
    runes (character ++ rest) = (rune, character) :: runes rest := by
  have hDecode := decode?_append rest h
  have hWidth := (decode?_width h).1
  cases character with
  | nil => cases hWidth
  | cons a more =>
    rw [List.cons_append] at hDecode ⊢
    rw [runes, runesFrom, decode, hDecode]
    simp only [Option.getD_some, List.length_cons, Nat.add_sub_cancel, List.take_succ_cons,
      List.take_left, runesFrom_eq_drop, List.drop_left]

/-- A text that the check passes is well-formed. -/
theorem text_of_isValid (h : isValid text = true) : Text text := by
  generalize hLength : text.length = n
  induction n using Nat.strongRecOn generalizing text with
  | _ n ih =>
    subst hLength
    cases text with
    | nil => exact .nil
    | cons a more =>
      cases hDecode : decode? (a :: more) with
      | none =>
        rw [isValid, runes, runesFrom, decode, hDecode] at h
        simp at h
      | some pair =>
        obtain ⟨rune, width⟩ := pair
        have hFront := decode?_take hDecode
        have hSplit := List.take_append_drop width (a :: more)
        obtain ⟨hPos, hWidth⟩ := decode?_width hDecode
        rw [← hSplit, isValid, runes_append hFront, List.all_cons, Bool.and_eq_true] at h
        rw [← hSplit]
        refine .cons hFront (ih _ ?_ h.2 rfl)
        rw [List.length_drop]
        omega

/-- A text in which no byte is read as malformed is well-formed. -/
theorem text_of_points (h : ∀ rune ∈ points text, rune ≠ replacement) : Text text := by
  refine text_of_isValid (List.all_eq_true.2 fun pair hPair => ?_)
  simp [h pair.1 (List.mem_map_of_mem hPair)]

/-- A text of ASCII bytes is well-formed. -/
theorem text_of_ascii (h : ∀ b ∈ text, b < 0x80) : Text text := by
  induction text with
  | nil => exact .nil
  | cons b text ih =>
    rw [List.forall_mem_cons] at h
    have hFront : Text [b] := .single (decode?_one.2 ⟨UInt8.lt_iff_toNat_lt.1 h.1, rfl⟩)
    exact hFront.append (ih h.2)

theorem points_append (h : decode? character = some (rune, character.length)) :
    points (character ++ rest) = rune :: points rest := by
  rw [points, runes_append h, List.map_cons, points]

/-- A well-formed text reads as code points only. -/
theorem Text.points_point (h : Text text) : ∀ rune ∈ points text, Point rune := by
  induction h with
  | nil => exact List.forall_mem_nil _
  | cons hDecode _ ih =>
    rw [points_append hDecode]
    exact List.forall_mem_cons.2 ⟨⟨_, hDecode⟩, ih⟩

/-- A well-formed text is written by its code points. -/
theorem Text.flatMap_encode (h : Text text) : (points text).flatMap encode = text := by
  induction h with
  | nil => rfl
  | cons hDecode _ ih =>
    rw [points_append hDecode, List.flatMap_cons, ih, encode_of_decode? hDecode]

/-- Well-formed texts that read as the same code points are the same. -/
theorem Text.eq_of_points (hu : Text u) (hv : Text v) (h : points u = points v) : u = v := by
  rw [← hu.flatMap_encode, h, hv.flatMap_encode]

theorem Text.encode (rune : Nat) : Text (Utf8.encode rune) :=
  let ⟨_, h⟩ := decode?_encode rune
  .single h

end

/-! ### What a number is written as -/

section

variable {b : UInt8} {text rest : Bytes}

/-- The code point that stands for a number in a text: the number, if it is one. -/
def mended (n : Nat) : Nat := if isScalar n then n else replacement

theorem mended_of_scalar {n : Nat} (h : isScalar n = true) : mended n = n := if_pos h

/-- A byte that continues a sequence adds six bits. -/
theorem extend_tail {k : Nat} (n : Nat) (h : k < 64) :
    extend n (0x80 + k).toUInt8 = n * 64 + k := by
  have hTail : (0x80 + k).toUInt8.toNat = 0x80 + k := toNat_toUInt8 (by omega)
  unfold extend
  omega

theorem decode?_encode_scalar {rune : Nat} (h : isScalar rune = true) :
    decode? (encode rune) = some (rune, (encode rune).length) := by
  obtain ⟨n, hDecode⟩ := decode?_encode rune
  suffices hRune : n = rune by rw [hDecode, hRune]
  have hScalar := h
  simp only [isScalar, Bool.or_eq_true, Bool.and_eq_true, decide_eq_true_eq] at hScalar
  unfold encode at hDecode
  dsimp only at hDecode
  by_cases hOne : rune < 0x80
  · rw [if_pos hOne] at hDecode
    rw [(decode?_one.1 hDecode).2, toNat_toUInt8 (by omega)]
  rw [if_neg hOne] at hDecode
  by_cases hTwo : rune < 0x800
  · rw [if_pos hTwo] at hDecode
    rw [(decode?_two.1 hDecode).2.2, extend_tail _ (by omega), toNat_toUInt8 (by omega)]
    omega
  rw [if_neg hTwo, h, if_neg (by decide)] at hDecode
  by_cases hThree : rune < 0x10000
  · rw [if_pos hThree] at hDecode
    rw [(decode?_three.1 hDecode).2.2.2.2.2, extend_tail _ (by omega), extend_tail _ (by omega),
      toNat_toUInt8 (by omega)]
    omega
  · rw [if_neg hThree] at hDecode
    rw [(decode?_four.1 hDecode).2.2.2.2.2.2, extend_tail _ (by omega), extend_tail _ (by omega),
      extend_tail _ (by omega), toNat_toUInt8 (by omega)]
    omega

theorem encode_toNat {b : UInt8} (h : b < 0x80) : encode b.toNat = [b] := by
  have hLow : b.toNat < 0x80 := UInt8.lt_iff_toNat_lt.1 h
  rw [encode, if_pos hLow, toUInt8_eq rfl]

theorem encode_of_not_scalar {rune : Nat} (h : isScalar rune = false) :
    encode rune = encode replacement := by
  have hHigh := h
  simp only [isScalar, Bool.or_eq_false_iff, decide_eq_false_iff_not] at hHigh
  unfold encode
  dsimp only
  rw [if_neg (by omega), if_neg (by omega), h]
  rfl

/-- What is written for a number reads as the code point that stands for it. -/
theorem decode?_encode_mended (n : Nat) :
    decode? (encode n) = some (mended n, (encode n).length) := by
  cases h : isScalar n with
  | true => rw [mended_of_scalar h, decode?_encode_scalar h]
  | false =>
    rw [encode_of_not_scalar h, mended, h]
    rfl

theorem encode_mended (n : Nat) : encode (mended n) = encode n := by
  unfold mended
  split
  · rfl
  · rename_i h
    exact (encode_of_not_scalar (Bool.not_eq_true _ ▸ h)).symm

/-- Only code points are decoded. -/
theorem isScalar_of_decode? {character : Bytes} {rune : Nat}
    (h : decode? character = some (rune, character.length)) : isScalar rune = true := by
  cases hScalar : isScalar rune with
  | true => rfl
  | false =>
    have hMended := decode?_encode_mended rune
    rw [encode_of_decode? h, h, mended, hScalar] at hMended
    have hRune : rune = replacement := (Prod.mk.inj (Option.some.inj hMended)).1
    rw [hRune] at hScalar
    cases hScalar

theorem points_flatMap_encode (ns : List Nat) :
    points (ns.flatMap encode) = ns.map mended := by
  induction ns with
  | nil => rfl
  | cons n ns ih =>
    rw [List.flatMap_cons, points_append (decode?_encode_mended n), ih, List.map_cons]

/-- Numbers are written alike just if the same code points stand for them. -/
theorem flatMap_encode_inj {ms ns : List Nat} :
    ms.flatMap encode = ns.flatMap encode ↔ ms.map mended = ns.map mended := by
  constructor
  · intro h
    rw [← points_flatMap_encode, h, points_flatMap_encode]
  · intro h
    have hText (ns : List Nat) : Text (ns.flatMap encode) := by
      induction ns with
      | nil => exact .nil
      | cons n ns ih => exact (Text.encode n).append ih
    refine (hText ms).eq_of_points (hText ns) ?_
    rw [points_flatMap_encode, h, points_flatMap_encode]

/-- What follows a sequence in a well-formed text is well-formed. -/
theorem Text.tail {character : Bytes} {rune : Nat} (h : Text (character ++ rest))
    (hDecode : decode? character = some (rune, character.length)) : Text rest := by
  generalize hText : character ++ rest = text at h
  have hFront := decode?_append rest hDecode
  cases h with
  | nil => rw [hText] at hFront; cases hFront
  | @cons front more n hDecode' hMore =>
    rw [hText, decode?_append more hDecode'] at hFront
    have hLength : front.length = character.length := (Prod.mk.inj (Option.some.inj hFront)).2
    rwa [(List.append_inj hText hLength.symm).2]

/-- An ASCII byte stands for itself. -/
theorem Text.ascii (h : Text (b :: rest)) (hAscii : b < 0x80) :
    Text rest ∧ points (b :: rest) = b.toNat :: points rest := by
  have hDecode : decode? [b] = some (b.toNat, 1) :=
    decode?_one.2 ⟨UInt8.lt_iff_toNat_lt.1 hAscii, rfl⟩
  exact ⟨Text.tail h hDecode, points_append hDecode⟩

/-- Any other byte begins a sequence of such bytes. -/
theorem Text.high (h : Text (b :: rest)) (hHigh : ¬b < 0x80) : ∃ character more rune,
    b :: rest = character ++ more ∧ decode? character = some (rune, character.length) ∧
      (∀ c ∈ character, 0x80 ≤ c.toNat) ∧ 0x80 ≤ rune ∧ Text more := by
  generalize hText : b :: rest = text at h
  cases h with
  | nil => cases hText
  | @cons character more rune hDecode hMore =>
    have hEncode := encode_of_decode? hDecode
    have hRune : 0x80 ≤ rune := by
      cases character with
      | nil => cases hDecode
      | cons c tail => exact decode?_high hDecode ((List.cons.inj hText).1 ▸ hHigh)
    exact ⟨character, more, rune, rfl, hDecode, hEncode ▸ encode_high hRune, hRune, hMore⟩

theorem Text.head?_points (h : Text text) (c : UInt8) (hLow : c < 0x80) :
    (points text).head? = some c.toNat ↔ text.head? = some c := by
  cases text with
  | nil => simp [points, runes, runesFrom]
  | cons b rest =>
    by_cases hAscii : b < 0x80
    · rw [(h.ascii hAscii).2]
      simp [UInt8.toNat_inj]
    · obtain ⟨character, more, rune, hFront, hDecode, -, hRune, -⟩ := h.high hAscii
      have hByte : c.toNat < 0x80 := UInt8.lt_iff_toNat_lt.1 hLow
      rw [hFront, points_append hDecode, ← hFront]
      simp only [List.head?_cons, Option.some.injEq]
      constructor
      · intro hEq
        omega
      · rintro rfl
        exact absurd hLow hAscii

/-- ASCII bytes at the front of a text stand for themselves. -/
theorem Text.ascii_take {n : Nat} (h : Text text) (hAscii : ∀ b ∈ text.take n, b < 0x80) :
    Text (text.drop n) ∧ (points text).take n = (text.take n).map UInt8.toNat ∧
      (points text).drop n = points (text.drop n) := by
  induction n generalizing text with
  | zero => exact ⟨h, rfl, rfl⟩
  | succ n ih =>
    cases text with
    | nil => exact ⟨h, rfl, rfl⟩
    | cons b rest =>
      rw [List.take_succ_cons, List.forall_mem_cons] at hAscii
      obtain ⟨hRest, hPoints⟩ := h.ascii hAscii.1
      obtain ⟨hDrop, hTake, hMore⟩ := ih hRest hAscii.2
      rw [hPoints, List.take_succ_cons, List.take_succ_cons, List.map_cons, hTake]
      exact ⟨hDrop, rfl, hMore⟩

/-- The bytes of an ASCII kind at the front of a text are its code points of that kind. -/
theorem Text.takeWhile_points (h : Text text) (p : Nat → Bool) (hp : ∀ n, p n = true → n < 0x80) :
    (points text).takeWhile p = (text.takeWhile fun b => p b.toNat).map UInt8.toNat := by
  induction text with
  | nil => rfl
  | cons b rest ih =>
    by_cases hAscii : b < 0x80
    · obtain ⟨hRest, hPoints⟩ := h.ascii hAscii
      rw [hPoints, List.takeWhile_cons, List.takeWhile_cons]
      split
      · rw [ih hRest, List.map_cons]
      · rfl
    · obtain ⟨character, more, rune, hText, hDecode, -, hRune, -⟩ := h.high hAscii
      have hByte : p b.toNat = false :=
        Bool.eq_false_iff.2 fun hb => hAscii (UInt8.lt_iff_toNat_lt.2 (hp _ hb))
      have hPoint : p rune = false := Bool.eq_false_iff.2 fun hr => by have := hp _ hr; omega
      rw [List.takeWhile_cons_of_neg (by simp [hByte]), hText, points_append hDecode,
        List.takeWhile_cons_of_neg (by simp [hPoint])]
      rfl

end

end ScriptOptimizer.Utf8
