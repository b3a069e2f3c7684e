import ScriptOptimizer.Pattern.Check
import ScriptOptimizer.Proofs.Token.Lossless
import ScriptOptimizer.Proofs.Token.Numerals
import ScriptOptimizer.Proofs.Token.Sourced

/-!
What stands directly behind a number. Every token is read at the first place that is no white space,
and where a numeral stands there the longest one is taken or reported. So a word or a number follows
without a gap exactly where the scanner of numerals lets it pass.
-/

namespace ScriptOptimizer

/-! ### Where a fault is -/

/-- The fault is in the token as a whole. -/
def Scan.Whole {α : Type} (r : Scan α) : Prop := ∀ f, r = .error f → f.start = 0

theorem Scan.whole_fail {α : Type} (fault : LexicalFault) (width : Nat) :
    (Scan.fail (α := α) fault width).Whole := by
  intro f h
  cases h
  rfl

theorem Scan.whole_ok {α : Type} (found : Nat × α) : Scan.Whole (.ok found) := by
  intro f h
  cases h

theorem Comment.scanBlock_whole (width : Nat) (lineBreak : Bool) (text : Bytes) :
    (scanBlock width lineBreak text).Whole := by
  fun_induction scanBlock width lineBreak text with
  | case1 => exact Scan.whole_fail _ _
  | case2 => exact Scan.whole_ok _
  | case3 _ _ _ _ _ ih => exact ih

theorem StringLiteral.scan_whole (text : Bytes) : (scan text).Whole := by
  have body (quote : UInt8) (width skip : Nat) (value rest : Bytes) :
      (scanFrom quote width skip value rest).Whole := by
    fun_induction scanFrom quote width skip value rest with
    | case1 => exact Scan.whole_fail _ _
    | case2 _ _ _ _ _ ih => exact ih
    | case3 => exact Scan.whole_ok _
    | case4 => exact Scan.whole_fail _ _
    | case5 _ _ _ _ _ _ _ ih => exact ih
  cases text with
  | nil => exact Scan.whole_fail _ _
  | cons quote rest => exact body quote 1 0 [] rest

theorem RegexLiteral.scan_whole [PatternCheck] (text : Bytes) : (scan text).Whole := by
  have body (width depth : Nat) (inClass escaped : Bool) (rest : Bytes) :
      (scanBody width depth inClass escaped rest).Whole := by
    fun_induction scanBody width depth inClass escaped rest with
    | case1 | case2 | case4 | case10 | case13 => exact Scan.whole_fail _ _
    | case12 => exact Scan.whole_ok _
    | case3 | case5 | case6 | case7 | case8 | case9 | case11 | case14 => assumption
  unfold scan
  split
  · rename_i fault hBody
    intro f h
    cases h
    exact body _ _ _ _ _ _ hBody
  · dsimp only
    split
    · exact Scan.whole_fail _ _
    split
    · exact Scan.whole_ok _
    split
    · exact Scan.whole_fail _ _
    · exact Scan.whole_ok _

theorem Numeral.scan_whole (text : Bytes) : (scan text).Whole := by
  have hex (rest : Bytes) : (scanHex rest).Whole := by
    unfold scanHex
    dsimp only
    split
    · exact Scan.whole_fail _ _
    split
    · exact Scan.whole_fail _ _
    · exact Scan.whole_ok _
  have decimal (whole : Nat) : (scanDecimal whole text).Whole := by
    unfold scanDecimal
    dsimp only
    split
    · exact Scan.whole_fail _ _
    split
    · split
      · exact Scan.whole_fail _ _
      · exact Scan.whole_ok _
    · exact Scan.whole_ok _
  unfold scan
  split
  · exact hex _
  · exact hex _
  · dsimp only
    split
    · split
      · exact Scan.whole_fail _ _
      · exact Scan.whole_ok _
    · exact decimal _

/-- In a word the fault is at a backslash. -/
theorem Word.scanFrom_fault {width skip : Nat} {name : Bytes} {escaped : Bool} {text : Bytes}
    {f : ScanFault} (h : scanFrom width skip name escaped text = .error f) :
    width ≤ f.start ∧ (text.drop (f.start - width)).head? = some 92 := by
  -- A fault behind more of the word is at the same place.
  have step {width : Nat} {rest : Bytes} (front : Bytes)
      (ih : width + front.length ≤ f.start ∧
        (rest.drop (f.start - (width + front.length))).head? = some 92) :
      width ≤ f.start ∧ ((front ++ rest).drop (f.start - width)).head? = some 92 := by
    obtain ⟨hWidth, hHead⟩ := ih
    refine ⟨by omega, ?_⟩
    rwa [show f.start - width = front.length + (f.start - (width + front.length)) by omega,
      ← List.drop_drop, List.drop_left]
  fun_induction scanFrom width skip name escaped text with
  | case1 | case8 | case10 => cases h
  | case4 | case5 | case6 =>
    cases h
    simp
  | case2 width name escaped b rest k ih => exact step [b] (ih h)
  | case3 width name escaped h₁ h₂ h₃ h₄ rest rune hRune ih =>
    exact step [92, 117, h₁, h₂, h₃, h₄] (ih h)
  | case7 width name escaped b rest _ _ _ ih => exact step [b] (ih h)
  | case9 width name escaped b rest _ _ rune size _ _ ih => exact step [b] (ih h)

namespace Lexeme

variable {before : Option Token} {text : Bytes} {lexeme : Lexeme}

theorem bind_error {α : Type} {r : Scan α} {make : Nat × α → Lexeme} {f : ScanFault}
    (h : (do let p ← r; pure (make p) : Except ScanFault Lexeme) = .error f) : r = .error f := by
  cases r with
  | error g =>
    cases h
    rfl
  | ok p => cases h

variable [PatternCheck]

/-- A fault is where its token begins, or at a backslash in it. -/
theorem scan_fault {f : ScanFault} (h : scan before text = .error f) :
    f.start = 0 ∨ (text.drop f.start).head? = some 92 := by
  cases text with
  | nil => cases h
  | cons b rest =>
    have inWord (h : word before (b :: rest) = .error f) :
        ((b :: rest).drop f.start).head? = some 92 := by
      simpa using (Word.scanFrom_fault (bind_error h)).2
    unfold scan at h
    dsimp only at h
    split at h
    · exact .inl (StringLiteral.scan_whole _ _ (bind_error h))
    split at h
    · exact .inl (Numeral.scan_whole _ _ (bind_error h))
    split at h
    · cases h
    split at h
    · exact .inl (Comment.scanBlock_whole _ _ _ _ (bind_error h))
    split at h
    · exact .inl (RegexLiteral.scan_whole _ _ (bind_error h))
    split at h
    · exact .inr (inWord h)
    split at h
    · exact .inr (inWord h)
    · unfold punctuator at h
      split at h
      · cases h
      · cases h
        exact .inl rfl

/-- Where the longest numeral is, there is the fault with it or a number. -/
theorem scan_longest {raw rest : Bytes} (h : Numeral.Longest raw rest) (before : Option Token) :
    (∀ fault, Numeral.fault? raw rest = some fault →
      ∃ width, scan before (raw ++ rest) = .error ⟨fault, 0, width⟩) ∧
    (Numeral.fault? raw rest = none → ∃ lexeme, scan before (raw ++ rest) = .ok lexeme ∧
      lexeme.type = .number ∧ lexeme.width = raw.length) := by
  have hAnswers := Numeral.scan_longest h
  have hScan : scan before (raw ++ rest) = numeral (raw ++ rest) := by
    obtain ⟨b, tail, rfl, hStart⟩ := h.written.starts
    exact (scan_numeral (Numeral.begins_append hStart rest) before).1
  rw [hScan, numeral]
  unfold Numeral.Answers at hAnswers
  constructor
  · intro fault hFault
    rw [hFault] at hAnswers
    obtain ⟨width, hFail⟩ := hAnswers
    rw [hFail]
    exact ⟨width, rfl⟩
  · intro hFault
    rw [hFault] at hAnswers
    obtain ⟨value, hOk⟩ := hAnswers
    rw [hOk]
    exact ⟨_, rfl, rfl, rfl⟩

end Lexeme

/-! ### What a numeral runs into -/

/-- Is it a word or a number? -/
def TokenType.isWordOrNumber : TokenType → Bool
  | identifier | keyword _ | number => true
  | _ => false

namespace Numeral

/-- The numeral runs into what follows it: into a word that begins with an ASCII letter, `_` or `$`,
unless it is decimal, into a word that begins in another way, or into a fraction, unless it is a
decimal one without a point and an exponent. -/
def RunsInto (raw : Bytes) : Bytes → Prop
  | [] => False
  | b :: rest =>
    (Word.isStartByte b = true ∧ isDecimal raw = false) ∨ b = 92 ∨
      (0x80 ≤ b ∧ Category.isLetter (Utf8.decode (b :: rest)).1 = true) ∨
      (b = 46 ∧ Bytes.isDigit (rest.headD 0) = true ∧
        (isDecimal raw && raw.all Bytes.isDigit) = false)

instance (raw text : Bytes) : Decidable (RunsInto raw text) :=
  match text with
  | [] => isFalse id
  | _ :: _ => inferInstanceAs (Decidable (_ ∨ _ ∨ _ ∨ _))

variable {raw rest : Bytes}

/-- A word or a numeral directly behind the longest numeral is one that it runs into. -/
theorem Longest.runsInto {b : UInt8} (h : Longest raw (b :: rest))
    (hFault : fault? raw (b :: rest) = none)
    (hBegins : Word.Starts b rest ∨
      Bytes.isDigit b = true ∨ b = 46 ∧ Bytes.isDigit (rest.headD 0) = true) :
    RunsInto raw (b :: rest) := by
  rcases hBegins with (hByte | hSlash | hLetter) | hDigit | ⟨rfl, hDigit⟩
  · left
    refine ⟨hByte, ?_⟩
    apply Bool.eq_false_iff.2
    intro hDecimal
    simp only [isDecimal, Bool.and_eq_true, Bool.not_eq_true'] at hDecimal
    simp only [fault?, hDecimal.1, hDecimal.2, Bool.false_eq_true, if_false, List.head?_cons,
      Option.bind_some, clash?_eq_none] at hFault
    rw [hByte] at hFault
    cases hFault
  · exact .inr (.inl hSlash)
  · exact .inr (.inr (.inl hLetter))
  · rw [h.not_digit b rfl] at hDigit
    cases hDigit
  · right; right; right
    refine ⟨rfl, hDigit, ?_⟩
    apply Bool.eq_false_iff.2
    intro hWhole
    simp only [isDecimal, Bool.and_eq_true, Bool.not_eq_true', List.all_eq_true] at hWhole
    obtain ⟨⟨-, hOctal⟩, hDigits⟩ := hWhole
    obtain ⟨c, tail, hRaw, -⟩ := h.written.starts
    have hPoint : IsDecimal raw [46] [] :=
      ⟨hDigits, hOctal, .inl (by simp [hRaw]), .point (List.forall_mem_nil _), .nil⟩
    apply h.not_written
    simpa using Written.decimal hPoint

/-- What a numeral runs into begins as a word or as a fraction. -/
theorem RunsInto.begins {text : Bytes} (h : RunsInto raw text) : ∃ b rest, text = b :: rest ∧
    (Word.Starts b rest ∨ b = 46 ∧ Bytes.isDigit (rest.headD 0) = true) := by
  cases text with
  | nil => cases h
  | cons b rest =>
    refine ⟨b, rest, rfl, ?_⟩
    rcases h with ⟨hByte, -⟩ | hSlash | hLetter | ⟨hPoint, hDigit, -⟩
    · exact .inl (.inl hByte)
    · exact .inl (.inr (.inl hSlash))
    · exact .inl (.inr (.inr hLetter))
    · exact .inr ⟨hPoint, hDigit⟩

end Numeral

/-! ### Tokens -/

namespace Lexer

section

variable [PatternCheck]

/-- What a call of the lexer gives at an offset: the lexeme behind the white space there, or the
fault in it. -/
inductive Reads (text : Bytes) (offset : Nat) (t : Token) : Prop
  | token {before : Option Token} {lexeme : Lexeme} :
      t.start = offset + (Gap.scan (text.drop offset)).width →
      Lexeme.scan before (text.drop t.start) = .ok lexeme →
      lexeme.Makes (text.drop t.start) t → t.stop = t.start + lexeme.width → Reads text offset t
  | fault {before : Option Token} {place : Nat} {f : ScanFault} :
      Lexeme.scan before (text.drop place) = .error f → t.type = .illegal →
      t.literal = f.fault.message → t.start = place + f.start → Reads text offset t

variable {text : Bytes} {offset : Nat} {t u : Token} {l : Lexer}

theorem next_reads (h : l.cursor.In text) (hOk : l.failure = none) :
    Reads text l.cursor.offset l.next.1 := by
  obtain ⟨hGap, -⟩ := Gap.scan_blank l.cursor.rest
  have hOffset := l.cursor.advance_offset hGap
  have hCursor := h.advance hGap
  unfold next
  rw [hOk]
  dsimp only
  rw [h.rest_eq] at hGap hOffset hCursor ⊢
  generalize l.cursor.advance (Gap.scan (text.drop l.cursor.offset)).width = c at *
  have hRest := hCursor.rest_eq
  cases hScan : Lexeme.scan l.before c.rest with
  | error f =>
    obtain ⟨hStart, -⟩ := Lexeme.scan_error hScan
    rw [hRest] at hScan
    apply Reads.fault hScan rfl rfl
    simp only [illegalToken, diagnostic, Diagnostic.lexical,
      c.advance_offset (Nat.le_of_lt hStart), Int.toNat_natCast]
  | ok lexeme =>
    rw [hRest] at hScan
    have hToken (newlineBefore : Bool) :
        Reads text l.cursor.offset (token c lexeme newlineBefore) :=
      .token hOffset hScan ⟨rfl, by simp [token, hRest], rfl, rfl, rfl⟩ rfl
    dsimp only
    split
    · exact hToken _
    · exact hToken _

/-- Every token of a run is read somewhere, and each behind the one before it. -/
theorem steps_read (h : l.cursor.In text) (hOk : l.failure = none) (fuel : Nat) :
    let tokens := (l.steps fuel).map (·.1)
    (∀ t ∈ tokens.head?, Reads text l.cursor.offset t) ∧
      (∀ t ∈ tokens, ∃ offset, Reads text offset t) ∧
      tokens.IsChain fun t u => (∃ offset, Reads text offset t) ∧ Reads text t.stop u := by
  induction fuel generalizing l with
  | zero => simp [steps]
  | succ fuel ih =>
    have hNext := next_reads h hOk
    rw [steps]
    dsimp only
    cases hLast : isLast l.next.1 with
    | true => simpa using ⟨hNext, _, hNext⟩
    | false =>
      obtain ⟨hIn, hAgain, -, hStop⟩ := next_more h hOk hLast
      obtain ⟨hHead, hAll, hChain⟩ := ih hIn hAgain
      rw [if_neg (by simp), List.map_cons]
      refine ⟨by simpa using hNext, List.forall_mem_cons.2 ⟨⟨_, hNext⟩, hAll⟩, ?_⟩
      apply List.isChain_cons.2
      exact ⟨fun u hu => ⟨⟨_, hNext⟩, hStop ▸ hHead u hu⟩, hChain⟩

/-- Where the longest numeral is, the token is the number or reports what is wrong with it. -/
theorem Reads.longest {raw rest : Bytes} (h : Reads text offset t)
    (hText : text.drop t.start = raw ++ rest) (hLongest : Numeral.Longest raw rest) :
    (∀ fault, Numeral.fault? raw rest = some fault →
      t.type = .illegal ∧ t.literal = fault.message) ∧
    (Numeral.fault? raw rest = none → t.type = .number ∧ t.literal = raw) := by
  cases h with
  | @token before _ _ hScan hMakes =>
    rw [hText] at hScan
    obtain ⟨hFaulty, hFine⟩ := Lexeme.scan_longest hLongest before
    constructor
    · intro fault hFault
      obtain ⟨_, hError⟩ := hFaulty fault hFault
      rw [hScan] at hError
      cases hError
    · intro hFault
      obtain ⟨_, hOk, hNumber, hWidth⟩ := hFine hFault
      obtain rfl := Except.ok.inj (hScan.symm.trans hOk)
      rw [hMakes.type_eq, hMakes.literal_eq, hText, hWidth, List.take_left]
      exact ⟨hNumber, rfl⟩
  | @fault before place f hScan hIllegal hLiteral hStart =>
    -- A fault that is not where its token begins is at a backslash, and no numeral begins so.
    have hPlace : f.start = 0 := by
      rcases Lexeme.scan_fault hScan with hPlace | hSlash
      · exact hPlace
      · rw [List.drop_drop, ← hStart, hText] at hSlash
        obtain ⟨b, tail, rfl, hBegins⟩ := hLongest.written.starts
        obtain rfl : b = 92 := by simpa using hSlash
        rcases hBegins with hDigit | ⟨hPoint, -⟩
        · exact absurd hDigit (by decide)
        · exact absurd hPoint (by decide)
    rw [hPlace, Nat.add_zero] at hStart
    rw [← hStart, hText] at hScan
    obtain ⟨hFaulty, hFine⟩ := Lexeme.scan_longest hLongest before
    constructor
    · intro fault hFault
      obtain ⟨_, hError⟩ := hFaulty fault hFault
      obtain rfl := Except.error.inj (hScan.symm.trans hError)
      exact ⟨hIllegal, hLiteral⟩
    · intro hFault
      obtain ⟨_, hOk, -⟩ := hFine hFault
      rw [hScan] at hOk
      cases hOk

/-- A number begins as a numeral, and its literal is as long as it is. -/
theorem Reads.begins (h : Reads text offset t) (hType : t.type = .number) :
    t.stop = t.start + t.literal.length ∧ ∃ b rest, text.drop t.start = b :: rest ∧
      (Bytes.isDigit b = true ∨ b = 46 ∧ Bytes.isDigit (rest.headD 0) = true) := by
  cases h with
  | fault _ hIllegal =>
    rw [hIllegal] at hType
    cases hType
  | token _ hScan hMakes hStop =>
    obtain ⟨hWidth, -⟩ := Lexeme.scan_ok hScan
    rw [hMakes.literal_eq, List.length_take_of_le hWidth]
    rw [hMakes.type_eq] at hType
    refine ⟨hStop, ?_⟩
    generalize text.drop t.start = read at hScan
    cases Lexeme.comes_of_scan hScan with
    | numeral hBegins => exact ⟨_, _, rfl, hBegins⟩
    | word _ hWord =>
      rcases Lexeme.word_type hWord with hWord | ⟨k, hWord⟩ <;> simp [hType] at hWord
    | _ => cases hType

/-- A number is the longest numeral, and nothing is wrong with it. -/
theorem Reads.number (h : Reads text offset t) (hType : t.type = .number) :
    Numeral.Longest t.literal (text.drop t.stop) ∧
      Numeral.fault? t.literal (text.drop t.stop) = none := by
  obtain ⟨hStop, b, rest, hText, hBegins⟩ := h.begins hType
  obtain ⟨raw, back, hSplit, hLongest⟩ := Numeral.exists_longest_cons hBegins
  rw [hSplit] at hText
  obtain ⟨hFaulty, hFine⟩ := h.longest hText hLongest
  have hFault : Numeral.fault? raw back = none := by
    cases hFault : Numeral.fault? raw back with
    | none => rfl
    | some fault =>
      rw [(hFaulty fault hFault).1] at hType
      cases hType
  obtain ⟨-, rfl⟩ := hFine hFault
  rw [hStop, ← List.drop_drop, hText, List.drop_left]
  exact ⟨hLongest, hFault⟩

/-- The number runs into a word or a number directly behind it. -/
theorem Reads.runsInto (ht : Reads text offset t) (hu : Reads text t.stop u)
    (hType : t.type = .number) (hStart : u.start = t.stop)
    (hKind : u.type.isWordOrNumber = true) :
    Numeral.RunsInto t.literal (text.drop t.stop) := by
  obtain ⟨hLongest, hFault⟩ := ht.number hType
  cases hu with
  | fault _ hIllegal =>
    rw [hIllegal] at hKind
    cases hKind
  | token _ hScan hMakes =>
    rw [hStart] at hScan
    rw [hMakes.type_eq] at hKind
    generalize text.drop t.stop = rest at *
    cases Lexeme.comes_of_scan hScan with
    | numeral hBegins => exact hLongest.runsInto hFault (.inr hBegins)
    | word hBegins => exact hLongest.runsInto hFault (.inl hBegins)
    | _ => cases hKind

/-- Where a numeral runs into something, that is the next token. -/
theorem Reads.follows {raw : Bytes} {place : Nat} (h : Reads text place u)
    (hLegal : u.type ≠ .illegal) (hRuns : Numeral.RunsInto raw (text.drop place)) :
    u.start = place ∧ u.type.isWordOrNumber = true := by
  obtain ⟨b, rest, hRest, hBegins⟩ := hRuns.begins
  cases h with
  | fault _ hIllegal => exact absurd hIllegal hLegal
  | @token before lexeme hStart hScan hMakes =>
    rw [hRest] at hStart
    rw [hMakes.type_eq]
    rcases hBegins with hWord | hPoint
    · obtain ⟨hAs, hGap⟩ := Lexeme.scan_starts hWord before
      have hHere : u.start = place := by rw [hStart, hGap]; rfl
      rw [hHere, hRest, hAs] at hScan
      refine ⟨hHere, ?_⟩
      rcases Lexeme.word_type hScan with hName | ⟨k, hName⟩ <;> rw [hName] <;> rfl
    · obtain ⟨hAs, hGap⟩ := Lexeme.scan_numeral (.inr hPoint) before
      have hHere : u.start = place := by rw [hStart, hGap]; rfl
      rw [hHere, hRest, hAs] at hScan
      obtain ⟨⟨width, number⟩, -, rfl⟩ := Lexeme.bind_ok hScan
      exact ⟨hHere, rfl⟩

/-- A number is the longest numeral at its place with nothing wrong in front of what follows, and
wherever a token stands at a numeral it is the longest one as a number, or the error that says what
is wrong. Behind a decimal numeral that is an ASCII letter, `_` or `$`; a hexadecimal or octal one
may be followed by anything. So a word or a number directly behind a number is one that it runs
into. -/
theorem numbers_apart (text : Bytes) (source : Option Source) :
    let tokens := ({ ofText text with source } : Lexer).run.map (·.1)
    (∀ t ∈ tokens, t.type = .number → Numeral.Longest t.literal (text.drop t.stop) ∧
      Numeral.fault? t.literal (text.drop t.stop) = none) ∧
    (∀ t ∈ tokens, ∀ raw rest, text.drop t.start = raw ++ rest → Numeral.Longest raw rest →
      (∀ fault, Numeral.fault? raw rest = some fault →
        t.type = .illegal ∧ t.literal = fault.message) ∧
      (Numeral.fault? raw rest = none → t.type = .number ∧ t.literal = raw)) ∧
    tokens.IsChain fun t u => t.type = .number →
      ((u.start = t.stop ∧ u.type.isWordOrNumber = true) ↔
        (u.type ≠ .illegal ∧ Numeral.RunsInto t.literal (text.drop t.stop))) := by
  obtain ⟨-, hAll, hChain⟩ :=
    steps_read (l := { ofText text with source }) (Cursor.In.start text) rfl (text.length + 1)
  refine ⟨?_, ?_, ?_⟩
  · intro t ht hType
    obtain ⟨offset, hReads⟩ := hAll t ht
    exact hReads.number hType
  · intro t ht raw rest hText hLongest
    obtain ⟨offset, hReads⟩ := hAll t ht
    exact hReads.longest hText hLongest
  · apply hChain.imp
    rintro t u ⟨⟨offset, hReads⟩, hBehind⟩ hType
    constructor
    · rintro ⟨hStart, hKind⟩
      refine ⟨?_, hReads.runsInto hBehind hType hStart hKind⟩
      intro hIllegal
      rw [hIllegal] at hKind
      cases hKind
    · rintro ⟨hLegal, hRuns⟩
      exact hBehind.follows hLegal hRuns

end

/-- A word directly behind a decimal numeral is reported. -/
theorem numbers_apart_refused :
    ∃ t ∈ (ofText (Bytes.ofString "1in")).run.map (·.1), t.type = .illegal ∧
      t.literal = Bytes.ofString "identifier starts immediately after numeric literal" := by
  have hLongest : Numeral.Longest [49] (Bytes.ofString "in") := by
    constructor
    · exact Numeral.written_digits (List.forall_mem_singleton.2 rfl) (List.cons_ne_nil _ _)
    · intro other hWritten hPrefix
      by_contra hLong
      -- No numeral has an `i` in it.
      obtain ⟨more, rfl⟩ : ∃ more, other = 49 :: 105 :: more := by
        rcases other with _ | ⟨a, _ | ⟨b, more⟩⟩
        · simp at hLong
        · simp at hLong
        · obtain ⟨rfl, hBack⟩ := List.cons_prefix_cons.1 hPrefix
          obtain ⟨rfl, -⟩ := List.cons_prefix_cons.1 hBack
          exact ⟨more, rfl⟩
      generalize hOther : 49 :: 105 :: more = other at hWritten
      cases hWritten with
      | hex => cases hOther
      | octal hOctal =>
        rw [← hOther] at hOctal
        cases hOctal
      | decimal hDecimal =>
        have := hDecimal.mem (b := 105) (by rw [← hOther]; simp)
        exact absurd this (by decide)
  have hToken : ∃ t ∈ (ofText (Bytes.ofString "1in")).run.map (·.1),
      (Bytes.ofString "1in").drop t.start = [49] ++ Bytes.ofString "in" := by decide +kernel
  obtain ⟨t, ht, hText⟩ := hToken
  obtain ⟨-, hPlaces, -⟩ := numbers_apart (Bytes.ofString "1in") none
  exact ⟨t, ht, (hPlaces t ht _ _ hText hLongest).1 .identifierAfterNumber (by decide)⟩

/-- No number of the text has a word or a number directly behind it. -/
def KeepsApart [PatternCheck] (text : Bytes) : Prop :=
  ((ofText text).run.map (·.1)).IsChain fun t u =>
    t.type = .number → ¬(u.start = t.stop ∧ u.type.isWordOrNumber = true)

instance [PatternCheck] (text : Bytes) : Decidable (KeepsApart text) :=
  inferInstanceAs (Decidable (List.IsChain _ _))

/-- Numbers run into a reserved word, behind a hexadecimal and an octal numeral, into a letter that
is not ASCII, into an escape and into a fraction. -/
theorem numbers_apart_fused :
    ¬KeepsApart (Bytes.ofString "0x1in") ∧ ¬KeepsApart (Bytes.ofString "017in") ∧
    ¬KeepsApart (Bytes.ofString "1\u00e9") ∧ ¬KeepsApart (Bytes.ofString "1\\u0061") ∧
    ¬KeepsApart (Bytes.ofString "1.5.5") := by
  decide +kernel

end Lexer

end ScriptOptimizer
