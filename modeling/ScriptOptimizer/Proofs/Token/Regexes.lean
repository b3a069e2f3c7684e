import Mathlib.Data.List.DropRight
import ScriptOptimizer.Pattern.Check
import ScriptOptimizer.Proofs.Token.LineBreak
import ScriptOptimizer.Proofs.Token.Text

/-!
Bodies of regular expressions. Which bytes of a body are escaped and which stand in a class is said
of the body alone, byte by byte from its front. The scanner is shown to follow both, so that the
body of every regular expression is closed, balanced and without a bare slash, and is broken by
nothing but a separator behind a backslash.
-/

namespace ScriptOptimizer

namespace RegexLiteral

/-- Is a byte that follows the text escaped: does an odd number of backslashes end the text? -/
def Escapes (front : Bytes) : Prop := (front.rtakeWhile (· = 92)).length % 2 = 1

instance (front : Bytes) : Decidable (Escapes front) :=
  inferInstanceAs (Decidable (_ = _))

/-- The byte stands at the place and is not escaped. -/
def Bare (text : Bytes) (b : UInt8) (i : Nat) : Prop := text[i]? = some b ∧ ¬Escapes (text.take i)

instance (text : Bytes) (b : UInt8) (i : Nat) : Decidable (Bare text b i) :=
  inferInstanceAs (Decidable (_ ∧ _))

theorem not_bare_of_le {front : Bytes} {b : UInt8} {i : Nat} (h : front.length ≤ i) :
    ¬Bare front b i := by
  rintro ⟨hByte, -⟩
  simp [List.getElem?_eq_none h] at hByte

theorem Bare.lt {front : Bytes} {b : UInt8} {i : Nat} (h : Bare front b i) : i < front.length := by
  by_contra hLe
  exact not_bare_of_le (by omega) h

/-- Does a byte that follows the text stand in a class: has the text an opening bracket with no
closing one behind it? -/
def InClass (front : Bytes) : Prop := ∃ i, Bare front 91 i ∧ ∀ j, i < j → ¬Bare front 93 j

instance (front : Bytes) : Decidable (InClass front) :=
  decidable_of_iff
    (∃ i < front.length, Bare front 91 i ∧ ∀ j < front.length, i < j → ¬Bare front 93 j)
    ⟨fun ⟨i, _, hOpen, hNone⟩ => ⟨i, hOpen, fun j hj hClose => hNone j hClose.lt hj hClose⟩,
      fun ⟨i, hOpen, hNone⟩ => ⟨i, hOpen.lt, hOpen, fun j _ => hNone j⟩⟩

/-- How often the byte stands in the text neither escaped nor in a class. -/
def loose (b : UInt8) (text : Bytes) : Nat :=
  (List.range text.length).countP fun i => Bare text b i ∧ ¬InClass (text.take i)

/-- The text is the body of a regular expression. The only line terminators in it are separators
behind a backslash. -/
structure IsBody (body : Bytes) : Prop where
  nonempty : body ≠ []
  complete : ¬Escapes body
  closed : ¬InClass body
  slashes : ∀ i, Bare body 47 i → InClass (body.take i)
  nested : ∀ i, loose 41 (body.take i) ≤ loose 40 (body.take i)
  balanced : loose 41 body = loose 40 body
  lines : ∀ i, ∀ rune ∈ lineTerminators, Utf8.encode rune <+: body.drop i →
    (rune = 0x2028 ∨ rune = 0x2029) ∧ Escapes (body.take i)

/-! ### One byte more -/

section

variable {front : Bytes} {b c : UInt8} {i : Nat}

@[simp] theorem not_escapes_nil : ¬Escapes [] := by decide

@[simp] theorem not_inClass_nil : ¬InClass [] := by decide

@[simp] theorem loose_nil : loose b [] = 0 := rfl

theorem escapes_concat : Escapes (front ++ [b]) ↔ b = 92 ∧ ¬Escapes front := by
  unfold Escapes
  rw [List.rtakeWhile_concat]
  split
  · simp_all
    omega
  · simp_all

theorem bare_concat_of_lt (h : i < front.length) : Bare (front ++ [c]) b i ↔ Bare front b i := by
  rw [Bare, Bare, List.getElem?_append_left h, List.take_append_of_le_length h.le]

theorem bare_concat_last : Bare (front ++ [c]) b front.length ↔ c = b ∧ ¬Escapes front := by
  rw [Bare, List.getElem?_concat_length, List.take_left, Option.some_inj]

theorem bare_concat :
    Bare (front ++ [c]) b i ↔ Bare front b i ∨ i = front.length ∧ c = b ∧ ¬Escapes front := by
  rcases lt_trichotomy i front.length with h | rfl | h
  · rw [bare_concat_of_lt h]
    simp [h.ne]
  · rw [bare_concat_last]
    simp [not_bare_of_le]
  · have hLong : ¬Bare (front ++ [c]) b i := not_bare_of_le (by simp; omega)
    simp [hLong, not_bare_of_le h.le, h.ne']

/-- A bracket opens or closes a class if it is not escaped; no other byte does. -/
theorem inClass_concat : InClass (front ++ [b]) ↔
    b = 91 ∧ ¬Escapes front ∨ InClass front ∧ ¬(b = 93 ∧ ¬Escapes front) := by
  constructor
  · rintro ⟨i, hOpen, hNone⟩
    rcases bare_concat.1 hOpen with hOpen | ⟨-, rfl, hFree⟩
    · refine .inr ⟨⟨i, hOpen, fun j hj hClose => hNone j hj (bare_concat.2 (.inl hClose))⟩, ?_⟩
      exact fun hClose => hNone _ hOpen.lt (bare_concat.2 (.inr ⟨rfl, hClose⟩))
    · exact .inl ⟨rfl, hFree⟩
  · rintro (hOpen | ⟨⟨i, hOpen, hNone⟩, hLast⟩)
    · refine ⟨front.length, bare_concat.2 (.inr ⟨rfl, hOpen⟩), fun j hj => ?_⟩
      exact not_bare_of_le (by simp; omega)
    · refine ⟨i, bare_concat.2 (.inl hOpen), fun j hj hClose => ?_⟩
      rcases bare_concat.1 hClose with hClose | ⟨-, hClose⟩
      · exact hNone j hj hClose
      · exact hLast hClose

theorem loose_concat : loose c (front ++ [b]) =
    loose c front + if b = c ∧ ¬Escapes front ∧ ¬InClass front then 1 else 0 := by
  have hFront : (List.range front.length).countP
      (fun i => Bare (front ++ [b]) c i ∧ ¬InClass ((front ++ [b]).take i)) = loose c front := by
    refine List.countP_congr fun i hi => ?_
    have hLt : i < front.length := List.mem_range.1 hi
    rw [decide_eq_true_iff, decide_eq_true_iff, bare_concat_of_lt hLt,
      List.take_append_of_le_length hLt.le]
  rw [loose, List.length_append, List.length_singleton, List.range_succ, List.countP_append, hFront,
    List.countP_singleton]
  simp only [decide_eq_true_eq, bare_concat_last, List.take_left, and_assoc]

end

/-! ### The scanner -/

/-- The scanner has read the first of the two texts, and is in this state. -/
structure Follows (front rest : Bytes) (depth : Nat) (inClass escaped : Bool) : Prop where
  escaped_iff : escaped = true ↔ Escapes front
  inClass_iff : inClass = true ↔ InClass front
  depth_eq : loose 41 front + depth = loose 40 front
  slashes : ∀ i, Bare front 47 i → InClass (front.take i)
  nested : ∀ i, loose 41 (front.take i) ≤ loose 40 (front.take i)
  lines : ∀ i < front.length, ∀ rune ∈ lineTerminators,
    Utf8.encode rune <+: (front ++ rest).drop i →
      (rune = 0x2028 ∨ rune = 0x2029) ∧ Escapes (front.take i)

theorem Follows.start (text : Bytes) : Follows [] text 0 false false where
  escaped_iff := by simp
  inClass_iff := by simp
  depth_eq := rfl
  slashes i h := absurd h.lt (by simp)
  nested i := by simp
  lines i h := by simp at h

/-- What every branch of the scanner does with its byte. -/
theorem Follows.step {front rest : Bytes} {b : UInt8} {depth depth' : Nat}
    {inClass inClass' escaped escaped' : Bool} (h : Follows front (b :: rest) depth inClass escaped)
    (hEscaped : escaped' = true ↔ b = 92 ∧ ¬escaped = true)
    (hClass : inClass' = true ↔
      b = 91 ∧ ¬escaped = true ∨ inClass = true ∧ ¬(b = 93 ∧ ¬escaped = true))
    (hDepth : (if b = 41 ∧ ¬escaped = true ∧ ¬inClass = true then 1 else 0) + depth' =
      (if b = 40 ∧ ¬escaped = true ∧ ¬inClass = true then 1 else 0) + depth)
    (hSlash : b = 47 → ¬escaped = true → inClass = true)
    (hLine : startsWithLineBreak (b :: rest) = true → escaped = true ∧ b ≠ 10 ∧ b ≠ 13) :
    Follows (front ++ [b]) rest depth' inClass' escaped' := by
  have hAll : loose 41 (front ++ [b]) + depth' = loose 40 (front ++ [b]) := by
    have hBefore := h.depth_eq
    simp only [loose_concat, ← h.escaped_iff, ← h.inClass_iff]
    omega
  refine ⟨?_, ?_, hAll, fun i hi => ?_, fun i => ?_, fun i hi rune hRune hPrefix => ?_⟩
  · rw [hEscaped, escapes_concat, h.escaped_iff]
  · rw [hClass, inClass_concat, h.escaped_iff, h.inClass_iff]
  · rcases bare_concat.1 hi with hi | ⟨rfl, rfl, hFree⟩
    · rw [List.take_append_of_le_length hi.lt.le]
      exact h.slashes i hi
    · rw [List.take_left]
      exact h.inClass_iff.1 (hSlash rfl (h.escaped_iff.not.2 hFree))
  · by_cases hi : i ≤ front.length
    · rw [List.take_append_of_le_length hi]
      exact h.nested i
    · rw [List.take_of_length_le (by simp; omega)]
      omega
  · have hLe : i ≤ front.length := by simpa [Nat.lt_succ_iff] using hi
    rw [List.append_assoc, List.singleton_append] at hPrefix
    rw [List.take_append_of_le_length hLe]
    rcases hLe.lt_or_eq with hLt | rfl
    · exact h.lines i hLt rune hRune hPrefix
    · rw [List.drop_left] at hPrefix
      obtain ⟨hOn, hFeed, hReturn⟩ := hLine (Bytes.startsWithLineBreak_iff.2 ⟨rune, hRune, hPrefix⟩)
      rw [List.take_length]
      refine ⟨?_, h.escaped_iff.1 hOn⟩
      simp only [lineTerminators, List.mem_cons, List.not_mem_nil, or_false] at hRune
      rcases hRune with rfl | rfl | hSeparator
      · exact absurd (List.cons_prefix_cons.1 hPrefix).1.symm hFeed
      · exact absurd (List.cons_prefix_cons.1 hPrefix).1.symm hReturn
      · exact hSeparator

/-- Up to the slash where it stops, the scanner has followed the text. -/
theorem Follows.run {front text : Bytes} {width depth : Nat} {inClass escaped : Bool}
    {closing : Nat} (h : scanBody width depth inClass escaped text = .ok (closing, ()))
    (hFront : Follows front text depth inClass escaped) :
    ∃ back after, text = back ++ 47 :: after ∧ closing = width + back.length ∧
      Follows (front ++ back) (47 :: after) 0 false false := by
  fun_induction scanBody width depth inClass escaped text generalizing front with
  | case1 | case2 | case4 | case10 | case13 => cases h
  | case12 =>
    simp only [Except.ok.injEq, Prod.mk.injEq, and_true] at h
    refine ⟨[], _, rfl, h.symm, ?_⟩
    simp_all
  | case3 | case5 | case6 | case7 | case8 | case9 | case11 | case14 =>
    rename_i ih
    obtain ⟨back, after, rfl, rfl, hRead⟩ := ih h <| hFront.step
      (by grind) (by grind) (by grind) (by grind) (by grind)
    refine ⟨_ :: back, after, rfl, by simp; omega, ?_⟩
    rwa [List.append_cons]

theorem nodup_of_validFlags {flags : Bytes} (h : validFlags flags = true) :
    flags.Nodup ∧ ∀ f ∈ flags, f ∈ Bytes.ofString "gimuy" := by
  induction flags with
  | nil => simp
  | cons f rest ih =>
    simp only [validFlags, Bool.and_eq_true, Bool.not_eq_true', List.contains_eq_mem,
      decide_eq_true_eq, decide_eq_false_iff_not] at h
    obtain ⟨⟨hLetter, hNew⟩, hRest⟩ := h
    obtain ⟨hNodup, hLetters⟩ := ih hRest
    exact ⟨List.nodup_cons.2 ⟨hNew, hNodup⟩, List.forall_mem_cons.2 ⟨hLetter, hLetters⟩⟩

/-- The text at which the scanner has stopped is a body. -/
theorem Follows.isBody {body rest : Bytes} (h : Follows body rest 0 false false)
    (hBody : body ≠ []) : IsBody body where
  nonempty := hBody
  complete := by simpa using h.escaped_iff
  closed := by simpa using h.inClass_iff
  slashes := h.slashes
  nested := h.nested
  balanced := h.depth_eq
  lines i rune hRune hPrefix := by
    have hLt : i < body.length := by
      by_contra hLe
      rw [List.drop_eq_nil_of_le (by omega), List.prefix_nil] at hPrefix
      exact absurd hPrefix (by revert rune; decide)
    refine h.lines i hLt rune hRune (hPrefix.trans ?_)
    rw [List.drop_append_of_le_length hLt.le]
    exact List.prefix_append _ _

/-- A text that spells a literal is its parts. -/
theorem Spells.parts [PatternCheck] {raw : Bytes} {parts : Parts} (h : Spells raw parts) :
    raw = 47 :: (parts.body ++ 47 :: parts.flags) ∧ IsBody parts.body ∧
      parts.flags.Nodup ∧ ∀ f ∈ parts.flags, f ∈ Bytes.ofString "gimuy" := by
  obtain ⟨c, tail, rfl, hSlash, -⟩ := h.starts
  have hScan := h.scan (show Stops true [] from trivial)
  rw [List.append_nil] at hScan
  cases hBody : scanBody 1 0 false false (c :: tail) with
  | error fault => simp [RegexLiteral.scan, hBody] at hScan
  | ok pair =>
    obtain ⟨closing, ⟨⟩⟩ := pair
    obtain ⟨body, after, hText, rfl, hRead⟩ := (Follows.start _).run hBody
    rw [hText] at hBody hScan ⊢
    obtain ⟨hWidth, rfl, hValid⟩ := parts_of_scan hBody hScan
    have hFlags : after.takeWhile Word.isPartByte = after := by
      refine (List.takeWhile_sublist _).eq_of_length ?_
      simp only [List.length_cons, List.length_append] at hWidth
      omega
    have hNonempty : body ≠ [] := by
      rintro rfl
      exact hSlash (List.cons.inj hText).1
    refine ⟨?_, hRead.isBody hNonempty, nodup_of_validFlags hValid⟩
    rw [hFlags]

end RegexLiteral

namespace Lexer

/-- What is read as a regular expression is a body between slashes, with flags behind it. -/
theorem regexes_formed [PatternCheck] (text : Bytes) (source : Option Source) :
    ∀ t ∈ ({ ofText text with source } : Lexer).run.map (·.1), t.type = .regex →
      t.literal = 47 :: (t.value ++ 47 :: t.flags) ∧ RegexLiteral.IsBody t.value ∧
        t.flags.Nodup ∧ ∀ f ∈ t.flags, f ∈ Bytes.ofString "gimuy" := by
  intro t ht hType
  obtain ⟨step, hStep, rfl⟩ := List.mem_map.1 ht
  obtain ⟨l, rfl⟩ := mem_steps hStep
  obtain ⟨before, read, lexeme, hScan, hMakes⟩ := next_scanned (l := l) (by simp [hType])
  have hSound := (Lexeme.scan_sound hScan hMakes fun h => by simp [hType] at h).1
  simp only [Token.Sound, hType] at hSound
  exact hSound.parts

/-- A class with a slash in it, and groups. -/
theorem regexes_formed_class :
    ∃ t ∈ (ofText (Bytes.ofString "/(a[/)]|\\/)b/gi")).run.map (·.1),
      t.type = .regex ∧ RegexLiteral.IsBody t.value ∧ t.flags.Nodup := by
  have hTokens : ∃ t ∈ (ofText (Bytes.ofString "/(a[/)]|\\/)b/gi")).run.map (·.1),
      t.type = .regex := by decide +kernel
  obtain ⟨t, ht, hType⟩ := hTokens
  obtain ⟨-, hBody, hFlags, -⟩ := regexes_formed _ none t ht hType
  exact ⟨t, ht, hType, hBody, hFlags⟩

/-- A separator behind a backslash does not end the literal. -/
theorem regexes_formed_separator :
    ∃ t ∈ (ofText (Bytes.ofString "/\\\u2028/")).run.map (·.1),
      t.type = .regex ∧ t.value.LineBroken := by
  decide +kernel

end Lexer

end ScriptOptimizer
