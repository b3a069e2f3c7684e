import ScriptOptimizer.Pattern.Check
import ScriptOptimizer.Proofs.Text.Utf8
import ScriptOptimizer.Proofs.Token.Lexed
import ScriptOptimizer.Proofs.Token.Sourced
import ScriptOptimizer.Syntax.Print

/-!
Names. A name is a letter, `_` or `$`, and letters, digits, marks, `_` and `$` behind it. What the
lexer reads as an identifier is such a name as far as its escapes are such characters, and a name
that is no reserved word is read again as an identifier.
-/

namespace ScriptOptimizer

namespace Word

/-- May the code point begin a name? -/
def isStart (rune : Nat) : Bool := Category.isLetter rune || rune = 95 || rune = 36

/-- May the code point stand in a name behind its first one? -/
def isPart (rune : Nat) : Bool :=
  isStart rune || Category.isDecimalDigit rune || Category.isMark rune

/-- The code points of the text are those of a name. -/
def IsName (name : Bytes) : Prop :=
  match Utf8.points name with
  | [] => False
  | first :: rest => isStart first = true ∧ ∀ rune ∈ rest, isPart rune = true

instance (name : Bytes) : Decidable (IsName name) :=
  match h : Utf8.points name with
  | [] => isFalse (by simp [IsName, h])
  | first :: rest =>
    decidable_of_iff (isStart first = true ∧ ∀ rune ∈ rest, isPart rune = true)
      (by simp only [IsName, h])

/-- A character of a word as it is written: itself, or behind `\u` by its hexadecimal digits. -/
inductive Character where
  | itself (rune : Nat)
  | escape (digits : Bytes)

namespace Character

/-- What is written for the character. -/
def text : Character → Bytes
  | itself rune => Utf8.encode rune
  | escape digits => 92 :: 117 :: digits

/-- The code point that it denotes. -/
def rune : Character → Nat
  | itself rune => rune
  | escape digits => Utf8.mended ((Bytes.hex? digits).getD 0)

/-- Only a character of names is written as itself, and an escape has four digits. -/
def Valid : Character → Prop
  | itself rune => isPart rune = true ∧ Utf8.isScalar rune = true
  | escape digits => digits.length = 4 ∧ (Bytes.hex? digits).isSome = true

/-- Does it suit its place, if it is an escape: may what it denotes stand there? -/
def Fits (first : Bool) (c : Character) : Prop :=
  match c with
  | itself _ => True
  | escape _ => (if first then isStart c.rune else isPart c.rune) = true

end Character

/-- The characters are what is written for a name. -/
structure Written (cs : List Character) (raw name : Bytes) : Prop where
  valid : ∀ c ∈ cs, c.Valid
  raw_eq : raw = cs.flatMap Character.text
  name_eq : name = cs.flatMap fun c => Utf8.encode c.rune

/-- Every escape denotes a character that may stand in its place. -/
def EscapesFit (cs : List Character) : Prop :=
  ∀ i, ∀ c ∈ cs[i]?, Character.Fits (i = 0) c

/-! ### Characters of names -/

/-- No table has ASCII characters. -/
theorem inRanges_low {table : List (Nat × Nat)} (hTable : ∀ r ∈ table, 0x80 ≤ r.1) {n : Nat}
    (h : n < 0x80) : Category.inRanges table n = false := by
  refine List.any_eq_false.2 fun r hr hIn => ?_
  have := hTable r hr
  simp only [Bool.and_eq_true, decide_eq_true_eq] at hIn
  omega

theorem isLetter_low {n : Nat} (h : n < 0x80) :
    Category.isLetter n = Category.isAsciiLetter n := by
  rw [Category.isLetter, inRanges_low (by decide +kernel) h, Bool.or_false]

theorem isStart_toNat {b : UInt8} (h : b < 0x80) : isStart b.toNat = isStartByte b := by
  have hLow : b.toNat < 0x80 := UInt8.lt_iff_toNat_lt.1 h
  rw [isStart, isLetter_low hLow, Category.isAsciiLetter, isStartByte, Bool.eq_iff_iff]
  simp only [Bool.or_eq_true, Bool.and_eq_true, decide_eq_true_eq, UInt8.le_iff_toNat_le,
    ← UInt8.toNat_inj]
  grind

theorem isPart_toNat {b : UInt8} (h : b < 0x80) : isPart b.toNat = isPartByte b := by
  have hLow : b.toNat < 0x80 := UInt8.lt_iff_toNat_lt.1 h
  rw [isPart, isStart_toNat h, Category.isDecimalDigit, Category.isMark,
    inRanges_low (by decide +kernel) hLow, inRanges_low (by decide +kernel) hLow,
    inRanges_low (by decide +kernel) hLow, isPartByte, Bytes.isDigit, Bool.eq_iff_iff]
  simp only [Bool.or_eq_true, Bool.and_eq_true, decide_eq_true_eq, UInt8.le_iff_toNat_le]
  grind

theorem isPart_of_rune {rune : Nat} (h : isPartRune rune = true) : isPart rune = true := by
  unfold isPartRune at h
  unfold isPart isStart
  grind

theorem isPart_high {rune : Nat} (h : 0x80 ≤ rune) : isPart rune = isPartRune rune := by
  unfold isPartRune isPart isStart
  grind

theorem isStart_high {rune : Nat} (h : 0x80 ≤ rune) : isStart rune = Category.isLetter rune := by
  unfold isStart
  grind

/-! ### The characters of a word that was read -/

theorem scanFrom_written {width skip : Nat} {name : Bytes} {escaped : Bool} {text : Bytes}
    {stop : Nat} {word : Name} (h : scanFrom width skip name escaped text = .ok (stop, word))
    (hSkip : skip ≤ text.length) :
    ∃ cs : List Character, (∀ c ∈ cs, c.Valid) ∧
      (text.drop skip).take (stop - (width + skip)) = cs.flatMap Character.text ∧
      word.text = name.reverse ++ text.take skip ++ cs.flatMap fun c => Utf8.encode c.rune := by
  -- One more character that is written as itself, of which `size` bytes follow.
  have itself {width rune : Nat} {name : Bytes} {b : UInt8} {rest : Bytes} (size : Nat)
      (hStop : width + 1 + size ≤ stop) (hSize : size ≤ rest.length)
      (hDecode : Utf8.decode? (b :: rest.take size) = some (rune, size + 1))
      (hPart : isPart rune = true)
      (ih : ∃ cs : List Character, (∀ c ∈ cs, c.Valid) ∧
        (rest.drop size).take (stop - (width + 1 + size)) = cs.flatMap Character.text ∧
        word.text = (b :: name).reverse ++ rest.take size ++
          cs.flatMap fun c => Utf8.encode c.rune) :
      ∃ cs : List Character, (∀ c ∈ cs, c.Valid) ∧
        (b :: rest).take (stop - width) = cs.flatMap Character.text ∧
        word.text = name.reverse ++ cs.flatMap fun c => Utf8.encode c.rune := by
    obtain ⟨cs, hValid, hRaw, hName⟩ := ih
    have hSequence : Utf8.decode? (b :: rest.take size) =
        some (rune, (b :: rest.take size).length) := by
      rw [hDecode, List.length_cons, List.length_take_of_le hSize]
    have hEncode := Utf8.encode_of_decode? hSequence
    refine ⟨.itself rune :: cs, List.forall_mem_cons.2 ⟨⟨hPart, ?_⟩, hValid⟩, ?_, ?_⟩
    · exact Utf8.isScalar_of_decode? hSequence
    · rw [List.flatMap_cons, ← hRaw, Character.text, hEncode, List.cons_append,
        show stop - width = size + (stop - (width + 1 + size)) + 1 by omega, List.take_succ_cons,
        List.take_add]
    · rw [hName, List.flatMap_cons, Character.rune, hEncode]
      simp
  fun_induction scanFrom width skip name escaped text with
  | case1 width skip name escaped =>
    simp only [Except.ok.injEq, Prod.mk.injEq] at h
    obtain ⟨-, rfl⟩ := h
    exact ⟨[], List.forall_mem_nil _, by simp, by simp⟩
  | case2 width name escaped b rest k ih =>
    obtain ⟨cs, hValid, hRaw, hName⟩ := ih h (by simpa using hSkip)
    refine ⟨cs, hValid, ?_, by simpa using hName⟩
    rw [List.drop_succ_cons, ← hRaw]
    congr 1
    omega
  | case3 width name escaped h₁ h₂ h₃ h₄ rest rune hRune ih =>
    obtain ⟨cs, hValid, hRaw, hName⟩ := ih h (Nat.zero_le _)
    have hStop := scanFrom_ge h
    refine ⟨.escape [h₁, h₂, h₃, h₄] :: cs, ?_, ?_, ?_⟩
    · exact List.forall_mem_cons.2 ⟨⟨rfl, by rw [hRune]; rfl⟩, hValid⟩
    · rw [List.flatMap_cons, ← hRaw, show stop - (width + 0) = stop - (width + 6 + 0) + 6 by omega]
      rfl
    · rw [hName, List.flatMap_cons, Character.rune, hRune, Option.getD_some, Utf8.encode_mended]
      simp
  | case4 | case5 | case6 => cases h
  | case7 width name escaped b rest hSlash hLow hPart ih =>
    have hDecode : Utf8.decode? [b] = some (b.toNat, 1) := by simp [Utf8.decode?, hLow]
    have hRune : isPart b.toNat = true := (isPart_toNat hLow).trans hPart
    simpa using itself 0 (scanFrom_ge h) (Nat.zero_le _) hDecode hRune (ih h (Nat.zero_le _))
  | case9 width name escaped b rest hSlash hLow rune size hDecode hPart ih =>
    have hRune : rune ≠ Utf8.replacement := by
      rintro rfl
      rw [isPartRune_replacement] at hPart
      cases hPart
    have hSequence := Utf8.decode?_of_decode hDecode hRune
    obtain ⟨hPos, hWidth⟩ := Utf8.decode?_width hSequence
    have hTake := Utf8.decode?_take hSequence
    obtain ⟨more, rfl⟩ : ∃ more, size = more + 1 := ⟨size - 1, by omega⟩
    rw [List.length_cons] at hWidth
    rw [List.take_succ_cons, List.length_cons, List.length_take_of_le (by omega)] at hTake
    have hStop := (scanFrom_respell h (by omega)).1
    simpa using itself more (by omega) (by omega) hTake (isPart_of_rune hPart)
      (ih h (by omega))
  | case8 | case10 =>
    simp only [Except.ok.injEq, Prod.mk.injEq] at h
    obtain ⟨rfl, rfl⟩ := h
    exact ⟨[], List.forall_mem_nil _, by simp, by simp⟩

theorem Character.Valid.isScalar {c : Character} (h : c.Valid) : Utf8.isScalar c.rune = true := by
  cases c with
  | itself rune => exact h.2
  | escape digits =>
    rw [Character.rune, Utf8.mended]
    split
    · assumption
    · rfl

theorem Character.Valid.isPart {c : Character} (h : c.Valid) (hFits : c.Fits false) :
    isPart c.rune = true := by
  cases c with
  | itself rune => exact h.1
  | escape digits => exact hFits

/-- Without a backslash there is no escape. -/
theorem Written.escapesFit {cs : List Character} {raw name : Bytes} (h : Written cs raw name)
    (hSlash : 92 ∉ raw) : EscapesFit cs := by
  intro i c hc
  cases c with
  | itself rune => trivial
  | escape digits =>
    have hMem : Character.escape digits ∈ cs := List.mem_of_getElem? hc
    refine absurd ?_ hSlash
    rw [h.raw_eq]
    exact List.mem_flatMap.2 ⟨_, hMem, List.mem_cons_self⟩

/-- The code points of a name are those that its characters denote. -/
theorem Written.points {cs : List Character} {raw name : Bytes} (h : Written cs raw name) :
    Utf8.points name = cs.map Character.rune := by
  have hFlat : name = (cs.map Character.rune).flatMap Utf8.encode := by
    rw [h.name_eq, List.flatMap_map]
  rw [hFlat, Utf8.points_flatMap_encode, List.map_map]
  exact List.map_congr_left fun c hc => Utf8.mended_of_scalar (h.valid c hc).isScalar

/-- What is written as itself at the start of a word begins a name. -/
theorem isStart_of_starts {b : UInt8} {rest more : Bytes} {rune : Nat} (hStart : Starts b rest)
    (hValid : (Character.itself rune).Valid) (hText : b :: rest = Utf8.encode rune ++ more) :
    isStart rune = true := by
  obtain ⟨hPart, hScalar⟩ := hValid
  have hDecode := Utf8.decode?_encode_scalar hScalar
  cases hEncode : Utf8.encode rune with
  | nil =>
    rw [hEncode] at hDecode
    cases hDecode
  | cons c tail =>
    rw [hEncode] at hDecode hText
    rw [List.cons_append] at hText
    obtain ⟨rfl, rfl⟩ := List.cons.inj hText
    by_cases hLow : b < 0x80
    · obtain ⟨rfl, -⟩ := Utf8.decode?_low hDecode hLow
      rw [isPart_toNat hLow] at hPart
      rw [isStart_toNat hLow]
      rcases hStart with hByte | rfl | ⟨hHigh, -⟩
      · exact hByte
      · cases hPart
      · exact absurd hLow (UInt8.not_lt.2 hHigh)
    · rw [isStart_high (Utf8.decode?_high hDecode hLow)]
      rcases hStart with hByte | rfl | ⟨-, hLetter⟩
      · refine absurd hByte (Bool.eq_false_iff.1 ?_)
        unfold isStartByte
        grind
      · exact absurd (by decide) hLow
      · rwa [← List.cons_append, Utf8.decode, Utf8.decode?_append more hDecode] at hLetter

/-- The characters of a word that was read. What they denote is a name if the escapes are such
characters. -/
theorem written_of_scan {b : UInt8} {rest : Bytes} {width : Nat} {word : Name}
    (hStart : Starts b rest) (h : scan (b :: rest) = .ok (width, word)) :
    ∃ cs, Written cs ((b :: rest).take width) word.text ∧ (EscapesFit cs → IsName word.text) := by
  obtain ⟨cs, hValid, hRaw, hName⟩ := scanFrom_written h (Nat.zero_le _)
  have hWritten : Written cs ((b :: rest).take width) word.text :=
    ⟨hValid, by simpa using hRaw, by simpa using hName⟩
  refine ⟨cs, hWritten, fun hFit => ?_⟩
  have hPos := scan_pos hStart h
  have hText : b :: rest = cs.flatMap Character.text ++ (b :: rest).drop width := by
    rw [← hWritten.raw_eq, List.take_append_drop]
  rw [IsName, hWritten.points]
  cases cs with
  | nil =>
    have hLength := congrArg List.length hWritten.raw_eq
    simp only [List.length_take, List.length_cons, List.flatMap_nil, List.length_nil] at hLength
    omega
  | cons c more =>
    have hFirst : c.Fits true := hFit 0 c rfl
    rw [List.forall_mem_cons] at hValid
    refine ⟨?_, List.forall_mem_map.2 fun d hd => ?_⟩
    · cases c with
      | itself rune =>
        rw [List.flatMap_cons, List.append_assoc] at hText
        exact isStart_of_starts hStart hValid.1 hText
      | escape digits => exact hFirst
    · obtain ⟨i, hi⟩ := List.mem_iff_getElem?.1 hd
      exact (hValid.2 d hd).isPart (hFit (i + 1) d hi)

/-! ### Names read again -/

variable {name : Bytes}

theorem isPart_of_isStart {rune : Nat} (h : isStart rune = true) : isPart rune = true := by
  simp [isPart, h]

theorem isPart_replacement : isPart Utf8.replacement = false := by
  rw [isPart_high (by decide), isPartRune_replacement]

theorem IsName.isPart (h : IsName name) : ∀ rune ∈ Utf8.points name, isPart rune = true := by
  unfold IsName at h
  cases hPoints : Utf8.points name with
  | nil => exact List.forall_mem_nil _
  | cons first rest =>
    rw [hPoints] at h
    exact List.forall_mem_cons.2 ⟨isPart_of_isStart h.1, h.2⟩

theorem IsName.text (h : IsName name) : Utf8.Text name := by
  refine Utf8.text_of_points fun rune hRune => ?_
  rintro rfl
  have hPart := h.isPart _ hRune
  rw [isPart_replacement] at hPart
  cases hPart

/-- The bytes of a character that is being read are taken as they are. -/
theorem scanFrom_skip (width : Nat) (name : Bytes) (escaped : Bool) (tail rest : Bytes) :
    scanFrom width tail.length name escaped (tail ++ rest) =
      scanFrom (width + tail.length) 0 (tail.reverse ++ name) escaped rest := by
  induction tail generalizing width name with
  | nil => rfl
  | cons b tail ih =>
    rw [List.length_cons, List.cons_append, scanFrom, ih, Nat.add_right_comm, Nat.add_assoc]
    simp

theorem scanFrom_character {character : Bytes} {rune : Nat}
    (hDecode : Utf8.decode? character = some (rune, character.length)) (hPart : isPart rune = true)
    (width : Nat) (name : Bytes) (escaped : Bool) (rest : Bytes) :
    scanFrom width 0 name escaped (character ++ rest) =
      scanFrom (width + character.length) 0 (character.reverse ++ name) escaped rest := by
  cases character with
  | nil => cases hDecode
  | cons b tail =>
    by_cases hLow : b < 0x80
    · obtain ⟨rfl, hWidth⟩ := Utf8.decode?_low hDecode hLow
      obtain rfl : tail = [] := by simpa using hWidth
      rw [isPart_toNat hLow] at hPart
      have hSlash : b ≠ 92 := by
        rintro rfl
        cases hPart
      rw [List.singleton_append, scanFrom.eq_def]
      simp [hSlash, hLow, hPart]
    · have hSlash : b ≠ 92 := by
        rintro rfl
        exact hLow (by decide)
      have hFront : Utf8.decode (b :: (tail ++ rest)) = (rune, (b :: tail).length) := by
        rw [← List.cons_append, Utf8.decode, Utf8.decode?_append rest hDecode]
        rfl
      rw [isPart_high (Utf8.decode?_high hDecode hLow)] at hPart
      rw [List.cons_append, scanFrom.eq_def]
      simp only [hSlash, hLow, if_false, hFront, hPart, if_true, List.length_cons,
        Nat.add_sub_cancel, scanFrom_skip]
      simp [Nat.add_comm, Nat.add_left_comm]

theorem scanFrom_name {text rest : Bytes} (hText : Utf8.Text text)
    (hPart : ∀ rune ∈ Utf8.points text, Word.isPart rune = true) (hRest : Stops true rest)
    (width : Nat) (name : Bytes) (escaped : Bool) :
    scanFrom width 0 name escaped (text ++ rest) =
      .ok (width + text.length, ⟨name.reverse ++ text, escaped⟩) := by
  induction hText generalizing width name with
  | nil => simpa using scanFrom_stops hRest width name escaped
  | cons hDecode _ ih =>
    rw [Utf8.points_append hDecode, List.forall_mem_cons] at hPart
    rw [List.append_assoc, scanFrom_character hDecode hPart.1, ih hPart.2]
    simp [Nat.add_assoc]

/-- A name stands for itself. -/
theorem IsName.plain (h : IsName name) : Plain name := by
  have hPart := h.isPart
  have hText := h.text
  refine ⟨?_, fun hRest => by simpa [scan] using scanFrom_name hText hPart hRest 0 [] false⟩
  cases hText with
  | nil => cases h
  | @cons character rest rune hDecode hRest =>
    rw [IsName, Utf8.points_append hDecode] at h
    obtain ⟨hStart, -⟩ := h
    cases character with
    | nil => cases hDecode
    | cons b tail =>
      refine ⟨b, tail ++ rest, rfl, fun after => ?_⟩
      rw [List.append_assoc, ← List.cons_append, Utf8.decode, Utf8.decode?_append _ hDecode]
      by_cases hLow : b < 0x80
      · obtain ⟨rfl, -⟩ := Utf8.decode?_low hDecode hLow
        exact .inl (isStart_toNat hLow ▸ hStart)
      · rw [isStart_high (Utf8.decode?_high hDecode hLow)] at hStart
        exact .inr ⟨UInt8.not_lt.1 hLow, hStart⟩

end Word

/-- A token among others was scanned after the one before it. -/
theorem Scanned.at [PatternCheck] {before : Option Token} {front rest : List Token} {t : Token}
    (h : Scanned before (front ++ t :: rest)) :
    ∃ text lexeme, Lexeme.scan (front.getLast?.or before) text = .ok lexeme ∧
      lexeme.Makes text t := by
  induction front generalizing before with
  | nil => exact h.1
  | cons u front ih => simpa [List.getLast?_cons] using ih h.2

namespace Lexer

/-- A name that is no reserved word is cut into that one identifier. -/
theorem tokenize_name [PatternCheck] {name : Bytes} (h : Word.IsName name)
    (hFree : Keyword.ofText? name = none) :
    ∃ t last, tokenize name = ([t, last], none) ∧ t.type = .identifier ∧ t.value = name ∧
      last.type = .endOfInput := by
  have hStands := Spelling.stands_name h.plain hFree (show Stops true [] from trivial)
  have hLexed : Lexed NotDot false ([] ++ ((Spelling.name name).text ++ []))
      [.name name, .finish] :=
    .token (List.forall_mem_nil _) hStands (by simp [Spelling.name])
      (by intro hJoined; cases hJoined)
      (.finish (List.forall_mem_nil _))
  rw [List.nil_append, List.append_nil] at hLexed
  have hRun := steps_lexed hLexed (l := ofText name) rfl rfl (by intro t hNone; cases hNone) rfl
    hLexed.length_le ⟨(by intro hName; cases hName), (by intro hFinish; cases hFinish), trivial⟩
  change List.Forall₂ _ (ofText name).run _ at hRun
  generalize hSteps : (ofText name).run = steps at hRun
  rcases hRun with _ | ⟨⟨⟨hFirst, -⟩, hSpelled⟩, _ | ⟨⟨⟨hLast, hOk⟩, hEnd⟩, ⟨⟩⟩⟩
  rename_i first last
  refine ⟨first.1, last.1, ?_, hSpelled.type_eq, hSpelled.value_eq, hEnd.type_eq⟩
  simp only [List.mem_cons, not_or] at hFirst hLast
  simp [tokenize, hSteps, hFirst.1, hLast.1, hOk]

/-- What is read as an identifier was written with characters of names and with escapes; if what
the escapes denote may stand in their places, it is a name, and it is a reserved word only after a
dot or with an escape. A name that is no reserved word is cut into that one identifier again, and
where it is printed in front of a text that does not go on with a word it is read as itself, after
a dot even if it is reserved. -/
theorem identifiers_named [PatternCheck] {text : Bytes} {front rest : List Token} {t : Token}
    (hRun : (ofText text).run.map (·.1) = front ++ t :: rest) (hType : t.type = .identifier) :
    (∃ cs, Word.Written cs t.literal t.value ∧ (Word.EscapesFit cs → Word.IsName t.value)) ∧
    (NotDot (front.filter isKept).getLast? → 92 ∉ t.literal → Keyword.ofText? t.value = none) ∧
    (Word.IsName t.value → Keyword.ofText? t.value = none →
      ∃ u last, tokenize t.value = ([u, last], none) ∧ u.type = .identifier ∧ u.value = t.value ∧
        last.type = .endOfInput) ∧
    (Word.IsName t.value → ∀ span depth noIn before after, Stops true after →
      (NotDot before → Keyword.ofText? t.value = none) →
      Lexeme.scan before (Print.expr depth noIn (.ident ⟨span, t.value⟩) ++ after) =
        .ok { type := .identifier, width := t.value.length, value := t.value }) := by
  have hScanned : Scanned none ((front ++ t :: rest).filter isKept) := by
    rw [← hRun]
    exact steps_scanned _ (ofText text)
  rw [List.filter_append, List.filter_cons_of_pos (by simp [isKept, hType])] at hScanned
  obtain ⟨read, lexeme, hScan, hMakes⟩ := hScanned.at
  rw [Option.or_none] at hScan
  have hLexeme : lexeme.type = .identifier := hMakes.type_eq.symm.trans hType
  refine ⟨?_, fun hBefore hSlash => ?_, tokenize_name, ?_⟩
  · obtain ⟨b, more, rfl, hStart, hWord⟩ := Lexeme.word_of_scan hScan hLexeme
    obtain ⟨⟨width, word⟩, hRead, rfl⟩ := Lexeme.bind_ok hWord
    rw [hMakes.literal_eq, hMakes.value_eq]
    exact Word.written_of_scan hStart hRead
  · exact (Lexeme.scan_sound hScan hMakes fun _ => hSlash).2 hBefore hType
  · intro hName span depth noIn before after hAfter hFree
    have hWord : Lexeme.wordType before ⟨t.value, false⟩ = .identifier := by
      by_cases hBefore : NotDot before
      · rw [Lexeme.wordType_notDot hBefore, TokenType.ofWord, hFree hBefore]
      · simp only [NotDot, not_forall, not_not] at hBefore
        obtain ⟨dot, hDot, hMark⟩ := hBefore
        exact Lexeme.wordType_afterDot ⟨dot, hDot, hMark⟩ t.value
    rw [Print.expr_ident, (Lexeme.scan_plain hName.plain hAfter before).1, hWord]

/-- The reserved word is the name of a member here. -/
theorem identifiers_named_member :
    ∃ t ∈ (ofText (Bytes.ofString "caf\u00e9.if")).run.map (·.1),
      t.type = .identifier ∧ t.value = Bytes.ofString "if" ∧ Word.IsName t.value := by
  have hTokens : ∃ t ∈ (ofText (Bytes.ofString "caf\u00e9.if")).run.map (·.1),
      t.type = .identifier ∧ t.value = Bytes.ofString "if" ∧ 92 ∉ t.literal := by
    decide +kernel
  obtain ⟨t, ht, hType, hValue, hSlash⟩ := hTokens
  obtain ⟨front, rest, hRun⟩ := List.append_of_mem ht
  obtain ⟨⟨cs, hWritten, hName⟩, -⟩ := identifiers_named hRun hType
  exact ⟨t, ht, hType, hValue, hName (hWritten.escapesFit hSlash)⟩

/-- With an escape a reserved word is an identifier, which is read as the reserved word again. -/
theorem identifiers_named_reserved :
    (ofText (Bytes.ofString "\\u0069f")).run.map (fun step => (step.1.type, step.1.value)) =
      [(.identifier, Bytes.ofString "if"), (.endOfInput, [])] ∧
    Keyword.ofText? (Bytes.ofString "if") = some .kwIf ∧
    (tokenize (Bytes.ofString "if")).1.map (·.type) = [.keyword .kwIf, .endOfInput] := by
  decide +kernel

end Lexer

end ScriptOptimizer
