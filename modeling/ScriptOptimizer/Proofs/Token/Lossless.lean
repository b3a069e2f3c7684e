import Mathlib.Data.List.Chain
import ScriptOptimizer.Proofs.Token.Blank

/-!
Cutting a text into tokens loses nothing. Every call of the lexer reads on from where the last one
stopped, takes at least one byte until the end of input, and leaves nothing but white space between
two tokens; so at most one token more than there are bytes is read, and the gaps and the texts of
the tokens make up the whole text.
-/

namespace ScriptOptimizer

/-- The bytes of a text from one offset up to another. -/
def Bytes.slice (text : Bytes) (start stop : Nat) : Bytes := (text.drop start).take (stop - start)

namespace Bytes

@[simp] theorem slice_self (text : Bytes) (start : Nat) : text.slice start start = [] := by
  simp [slice]

theorem slice_append_slice (text : Bytes) {a b c : Nat} (hab : a ≤ b) (hbc : b ≤ c) :
    text.slice a b ++ text.slice b c = text.slice a c := by
  obtain ⟨m, rfl⟩ := Nat.exists_eq_add_of_le hab
  obtain ⟨n, rfl⟩ := Nat.exists_eq_add_of_le hbc
  have hWhole : a + m + n - a = m + n := by omega
  simp only [slice, Nat.add_sub_cancel_left, hWhole]
  rw [List.take_add, List.drop_drop]

theorem slice_length (text : Bytes) : text.slice 0 text.length = text := by
  simp [slice]

end Bytes

namespace Cursor

@[simp] theorem advance_rest (c : Cursor) (n : Nat) : (c.advance n).rest = c.rest.drop n := by
  induction n generalizing c with
  | zero => rfl
  | succ n ih =>
    rw [advance, ih]
    unfold next
    split
    · rename_i h
      simp [h]
    · rename_i b rest h
      split <;> simp [h]

theorem advance_offset (c : Cursor) {n : Nat} (h : n ≤ c.rest.length) :
    (c.advance n).offset = c.offset + n := by
  induction n generalizing c with
  | zero => rfl
  | succ n ih =>
    match hRest : c.rest with
    | [] => simp [hRest] at h
    | b :: rest =>
      have hNext : c.next.offset = c.offset + 1 ∧ c.next.rest = rest := by
        unfold next
        rw [hRest]
        dsimp only
        split <;> exact ⟨rfl, rfl⟩
      rw [advance, ih _ (by rw [hNext.2]; simpa [hRest] using h), hNext.1]
      omega

/-- The cursor stands inside the text, before what is left of it. -/
structure In (text : Bytes) (c : Cursor) : Prop where
  offset_le : c.offset ≤ text.length
  rest_eq : c.rest = text.drop c.offset

theorem In.start (text : Bytes) : In text (Cursor.start text) := ⟨Nat.zero_le _, rfl⟩

theorem In.length_rest {text : Bytes} {c : Cursor} (h : In text c) :
    c.rest.length = text.length - c.offset := by
  rw [h.rest_eq, List.length_drop]

theorem In.advance {text : Bytes} {c : Cursor} {n : Nat} (h : In text c)
    (hn : n ≤ c.rest.length) : In text (c.advance n) := by
  have hOffset := c.advance_offset hn
  have hLength := h.length_rest
  refine ⟨by have := h.offset_le; omega, ?_⟩
  rw [advance_rest, h.rest_eq, List.drop_drop, hOffset]

end Cursor

namespace Lexer

/-- What one call of the lexer does at an offset of a text: it reports an error that lies inside the
text, or it gives a token after a blank gap, whose literal is the text between its offsets. Only the
token at the end of the text is empty, and it is the one that says so. -/
structure Advances (text : Bytes) (offset : Nat) (t : Token) (after : Lexer) : Prop where
  cursor : after.cursor.In text
  offset_le : offset ≤ t.start
  start_le : t.start ≤ t.stop
  stop_le : t.stop ≤ text.length
  failure_iff : after.failure = none ↔ t.type ≠ .illegal
  after_eq : t.type ≠ .illegal → after.cursor.offset = t.stop
  literal_eq : t.type ≠ .illegal → t.literal = text.slice t.start t.stop
  gap_blank : t.type ≠ .illegal → Blank (text.slice offset t.start)
  progress : t.type ≠ .endOfInput → t.start < t.stop
  last : t.type = .endOfInput → t.start = text.length

/-- A fault in the token at a cursor gives an error that covers at least one byte of the text. -/
theorem illegalToken_range {text : Bytes} {c : Cursor} {f : ScanFault} (source : Option Source)
    (h : c.In text) (hStart : f.start < c.rest.length) (hWidth : f.width ≤ c.rest.length) :
    let t := illegalToken (diagnostic source c f)
    c.offset ≤ t.start ∧ t.start < t.stop ∧ t.stop ≤ text.length := by
  have hOffset := c.advance_offset (Nat.le_of_lt hStart)
  have hLength := h.length_rest
  have hIn := h.offset_le
  simp only [illegalToken, diagnostic, Diagnostic.lexical, hOffset, Int.toNat_natCast]
  omega

/-- The token of a lexeme after a blank gap. -/
theorem token_advances {text : Bytes} {offset : Nat} {c : Cursor} {lexeme : Lexeme} {after : Lexer}
    (newlineBefore : Bool) (h : c.In text) (hOffset : offset ≤ c.offset)
    (hGap : Blank (text.slice offset c.offset)) (hWidth : lexeme.width ≤ c.rest.length)
    (hType : lexeme.type ≠ .illegal) (hLast : lexeme.type = .endOfInput → c.rest = [])
    (hPos : lexeme.type ≠ .endOfInput → 0 < lexeme.width)
    (hAfter : after.cursor = c.advance lexeme.width) (hOk : after.failure = none) :
    Advances text offset (token c lexeme newlineBefore) after where
  cursor := hAfter ▸ h.advance hWidth
  offset_le := hOffset
  start_le := Nat.le_add_right _ _
  stop_le := by
    have := h.length_rest
    have := h.offset_le
    show c.offset + lexeme.width ≤ text.length
    omega
  failure_iff := ⟨fun _ => hType, fun _ => hOk⟩
  after_eq _ := by
    rw [hAfter, c.advance_offset hWidth]
    rfl
  literal_eq _ := by simp [token, Bytes.slice, h.rest_eq]
  gap_blank _ := hGap
  progress hMore := Nat.lt_add_of_pos_right (hPos hMore)
  last hEnd := by
    have hNil := congrArg List.length (hLast hEnd)
    rw [h.length_rest] at hNil
    have := h.offset_le
    show c.offset = text.length
    simp only [List.length_nil] at hNil
    omega

theorem next_advances [PatternCheck] {text : Bytes} {l : Lexer} (h : l.cursor.In text)
    (hOk : l.failure = none) : Advances text l.cursor.offset l.next.1 l.next.2 := by
  obtain ⟨hGap, hBlank⟩ := Gap.scan_blank l.cursor.rest
  have hOffset := l.cursor.advance_offset hGap
  have hCursor := h.advance hGap
  have hSlice : Blank (text.slice l.cursor.offset
      (l.cursor.advance (Gap.scan l.cursor.rest).width).offset) := by
    rw [hOffset, Bytes.slice, Nat.add_sub_cancel_left, ← h.rest_eq]
    exact hBlank
  have hLe : l.cursor.offset ≤ (l.cursor.advance (Gap.scan l.cursor.rest).width).offset := by
    omega
  unfold next
  rw [hOk]
  dsimp only
  generalize l.cursor.advance (Gap.scan l.cursor.rest).width = c at *
  cases hScan : Lexeme.scan l.before c.rest with
  | error f =>
    obtain ⟨hStart, hWidth⟩ := Lexeme.scan_error hScan
    obtain ⟨hLow, hRange, hHigh⟩ := illegalToken_range l.source hCursor hStart hWidth
    have hIllegal (p : Prop) :
        (illegalToken (diagnostic l.source c f)).type ≠ .illegal → p := fun hNot => absurd rfl hNot
    exact
      { cursor := hCursor
        offset_le := Nat.le_trans hLe hLow
        start_le := Nat.le_of_lt hRange
        stop_le := hHigh
        failure_iff := ⟨fun hNone => (by cases hNone), hIllegal _⟩
        after_eq := hIllegal _
        literal_eq := hIllegal _
        gap_blank := hIllegal _
        progress := fun _ => hRange
        last := fun hEnd => by cases hEnd }
  | ok lexeme =>
    obtain ⟨hWidth, hType, hLast, hPos⟩ := Lexeme.scan_ok hScan
    dsimp only
    split
    · exact token_advances _ hCursor hLe hSlice hWidth hType hLast hPos rfl rfl
    · exact token_advances _ hCursor hLe hSlice hWidth hType hLast hPos rfl rfl

/-- The steps of a lexer from an offset on: each call advances, and the last one is the first that
gives the end of input or an error. -/
inductive Cuts (text : Bytes) : Nat → List (Token × Lexer) → Prop
  | last {offset : Nat} {t : Token} {after : Lexer} :
      Advances text offset t after → isLast t = true → Cuts text offset [(t, after)]
  | more {offset : Nat} {t : Token} {after : Lexer} {rest : List (Token × Lexer)} :
      Advances text offset t after → isLast t = false → Cuts text t.stop rest →
      Cuts text offset ((t, after) :: rest)

theorem isLast_eq_false {t : Token} :
    isLast t = false ↔ t.type ≠ .endOfInput ∧ t.type ≠ .illegal := by
  simp [isLast]

/-- After a token that is not the last, the lexer stands further on and can be called again. -/
theorem next_more [PatternCheck] {text : Bytes} {l : Lexer} (h : l.cursor.In text)
    (hOk : l.failure = none) (hLast : isLast l.next.1 = false) :
    l.next.2.cursor.In text ∧ l.next.2.failure = none ∧
      l.cursor.offset < l.next.2.cursor.offset ∧ l.next.2.cursor.offset = l.next.1.stop := by
  obtain ⟨hMore, hLegal⟩ := isLast_eq_false.1 hLast
  have hNext := next_advances h hOk
  have hAfter := hNext.after_eq hLegal
  refine ⟨hNext.cursor, hNext.failure_iff.2 hLegal, ?_, hAfter⟩
  rw [hAfter]
  exact Nat.lt_of_le_of_lt hNext.offset_le (hNext.progress hMore)

/-- More calls than there are bytes left reach the last token. -/
theorem steps_cuts [PatternCheck] {text : Bytes} {l : Lexer} {fuel : Nat} (h : l.cursor.In text)
    (hOk : l.failure = none) (hFuel : text.length - l.cursor.offset < fuel) :
    Cuts text l.cursor.offset (l.steps fuel) := by
  induction fuel generalizing l with
  | zero => omega
  | succ fuel ih =>
    have hNext := next_advances h hOk
    rw [steps]
    dsimp only
    cases hLast : isLast l.next.1 with
    | true => exact .last hNext hLast
    | false =>
      obtain ⟨hIn, hAgain, hFurther, hStop⟩ := next_more h hOk hLast
      have := hIn.offset_le
      exact .more hNext hLast (hStop ▸ ih hIn hAgain (by omega))

/-- More calls than there are bytes left are enough: the loop ends by itself. -/
theorem steps_eq [PatternCheck] {text : Bytes} {l : Lexer} {fuel fuel' : Nat} (h : l.cursor.In text)
    (hOk : l.failure = none) (hFuel : text.length - l.cursor.offset < fuel)
    (hFuel' : text.length - l.cursor.offset < fuel') : l.steps fuel = l.steps fuel' := by
  induction fuel generalizing l fuel' with
  | zero => omega
  | succ fuel ih =>
    cases fuel' with
    | zero => omega
    | succ fuel' =>
      rw [steps, steps]
      dsimp only
      cases hLast : isLast l.next.1 with
      | true => rfl
      | false =>
        obtain ⟨hIn, hAgain, hFurther, -⟩ := next_more h hOk hLast
        have := hIn.offset_le
        have hRest : l.next.2.steps fuel = l.next.2.steps fuel' :=
          ih hIn hAgain (by omega) (by omega)
        rw [hRest]

namespace Cuts

variable {text : Bytes} {offset : Nat} {steps : List (Token × Lexer)}

/-- Every step advances from some offset. -/
theorem exists_advances (h : Cuts text offset steps) {step : Token × Lexer} (hMem : step ∈ steps) :
    ∃ start, Advances text start step.1 step.2 := by
  induction h with
  | @last offset t after hStep hLast =>
    obtain rfl := List.mem_singleton.1 hMem
    exact ⟨offset, hStep⟩
  | @more offset t after rest hStep hLast hRest ih =>
    rcases List.mem_cons.1 hMem with rfl | hMem
    · exact ⟨offset, hStep⟩
    · exact ih hMem

/-- Every token but the last takes a byte. -/
theorem length_le (h : Cuts text offset steps) : steps.length ≤ text.length - offset + 1 := by
  induction h with
  | last => simp
  | more hStep hLast hRest ih =>
    have := hStep.progress (isLast_eq_false.1 hLast).1
    have := hStep.offset_le
    have := hStep.stop_le
    simp only [List.length_cons]
    omega

/-- The last token ends the text or reports an error, and no other does. -/
theorem exists_last (h : Cuts text offset steps) :
    ∃ front last, steps.map (·.1) = front ++ [last] ∧ isLast last = true ∧
      ∀ t ∈ front, isLast t = false := by
  induction h with
  | @last offset t after hStep hLast => exact ⟨[], t, rfl, hLast, by simp⟩
  | @more offset t after rest hStep hLast hRest ih =>
    obtain ⟨front, last, hSplit, hEnd, hFront⟩ := ih
    refine ⟨t :: front, last, by rw [List.map_cons, hSplit]; rfl, hEnd, ?_⟩
    intro u hu
    rcases List.mem_cons.1 hu with rfl | hu
    · exact hLast
    · exact hFront u hu

/-- The first token starts at the offset or after it, behind a blank gap. -/
theorem head (h : Cuts text offset steps) :
    ∀ t ∈ (steps.map (·.1)).head?, offset ≤ t.start ∧
      (t.type ≠ .illegal → Blank (text.slice offset t.start)) := by
  cases h with
  | last hStep hLast => simpa using ⟨hStep.offset_le, hStep.gap_blank⟩
  | more hStep hLast hRest => simpa using ⟨hStep.offset_le, hStep.gap_blank⟩

/-- A token starts where the one before it stops or later, behind a blank gap. -/
theorem isChain (h : Cuts text offset steps) :
    (steps.map (·.1)).IsChain fun a b =>
      a.stop ≤ b.start ∧ (b.type ≠ .illegal → Blank (text.slice a.stop b.start)) := by
  induction h with
  | last => simp
  | more hStep hLast hRest ih =>
    rw [List.map_cons, List.isChain_cons]
    exact ⟨hRest.head, ih⟩

end Cuts

/-- The run of a lexer on a whole text. -/
theorem cuts_ofSource [PatternCheck] (source : Source) :
    Cuts source.content 0 (ofSource source).run :=
  steps_cuts (l := ofSource source) (Cursor.In.start source.content) rfl (Nat.lt_succ_self _)

/-- The gaps before tokens and the texts of the tokens, one after another. -/
def rejoin (text : Bytes) : Nat → List Token → Bytes
  | _, [] => []
  | offset, t :: rest => text.slice offset t.start ++ t.literal ++ rejoin text t.stop rest

/-- Up to the end of input, gaps and tokens make up the text from the offset on. -/
theorem Cuts.rejoin_eq {text : Bytes} {offset : Nat} {steps : List (Token × Lexer)}
    (h : Cuts text offset steps)
    (hEnd : ∀ t ∈ (steps.map (·.1)).getLast?, t.type = .endOfInput) :
    rejoin text offset (steps.map (·.1)) = text.slice offset text.length := by
  induction h with
  | @last offset t after hStep hLast =>
    have hType : t.type = .endOfInput := hEnd t (by simp)
    have hStart := hStep.last hType
    have hStop : t.stop = text.length := by
      have := hStep.start_le
      have := hStep.stop_le
      omega
    simp [rejoin, hStep.literal_eq (by simp [hType]), hStart, hStop]
  | @more offset t after rest hStep hLast hRest ih =>
    have hType := (isLast_eq_false.1 hLast).2
    have hNonempty : rest.map (·.1) ≠ [] := by
      cases hRest <;> simp
    have hTail : rejoin text t.stop (rest.map (·.1)) = text.slice t.stop text.length := by
      refine ih fun u hu => hEnd u ?_
      rwa [List.map_cons, List.getLast?_cons_of_ne_nil hNonempty]
    rw [List.map_cons, rejoin, hTail, hStep.literal_eq hType, List.append_assoc,
      Bytes.slice_append_slice text hStep.start_le hStep.stop_le,
      Bytes.slice_append_slice text hStep.offset_le (hStep.start_le.trans hStep.stop_le)]

/-- For every text, calling the lexer until the end of input or an error stops by itself after at
most one token more than there are bytes, and no call leaves the text. Tokens lie inside the text
and do not overlap, an error being reported inside it too; every token but the end of input has a
byte, and its literal is the text between its offsets. Between tokens there is white space only, and
the end of input stands at the end of the text, so that the gaps and the literals make up the
text. -/
theorem run_lossless [PatternCheck] (text : Bytes) (source : Option Source) :
    let l : Lexer := { ofText text with source }
    let tokens := l.run.map (·.1)
    (∀ fuel, text.length < fuel → l.steps fuel = l.run) ∧
    tokens.length ≤ text.length + 1 ∧
    (∃ front last, tokens = front ++ [last] ∧ isLast last = true ∧
      ∀ t ∈ front, isLast t = false) ∧
    (∀ step ∈ l.run, step.2.cursor.offset ≤ text.length ∧
      step.2.cursor.rest = text.drop step.2.cursor.offset) ∧
    (∀ t ∈ tokens, t.start ≤ t.stop ∧ t.stop ≤ text.length) ∧
    (∀ t ∈ tokens, t.type ≠ .illegal → t.literal = text.slice t.start t.stop) ∧
    (∀ t ∈ tokens, t.type ≠ .endOfInput → t.start < t.stop) ∧
    (tokens.IsChain fun a b =>
      a.stop ≤ b.start ∧ (b.type ≠ .illegal → Blank (text.slice a.stop b.start))) ∧
    (∀ t ∈ tokens.head?, t.type ≠ .illegal → Blank (text.slice 0 t.start)) ∧
    (∀ t ∈ tokens, t.type = .endOfInput → t.start = text.length) ∧
    ((∀ t ∈ tokens.getLast?, t.type = .endOfInput) → rejoin text 0 tokens = text) := by
  intro l tokens
  have hIn : l.cursor.In text := Cursor.In.start text
  have hCuts : Cuts text 0 l.run := steps_cuts hIn rfl (by show _ < text.length + 1; omega)
  have hToken : ∀ t ∈ tokens, ∃ start after, Advances text start t after := by
    intro t ht
    obtain ⟨step, hMem, rfl⟩ := List.mem_map.1 ht
    obtain ⟨start, hStep⟩ := hCuts.exists_advances hMem
    exact ⟨start, step.2, hStep⟩
  refine ⟨?_, ?_, hCuts.exists_last, ?_, ?_, ?_, ?_, hCuts.isChain, ?_, ?_, ?_⟩
  · intro fuel hFuel
    exact steps_eq hIn rfl (Nat.lt_of_le_of_lt (Nat.sub_le _ _) hFuel)
      (Nat.lt_succ_of_le (Nat.sub_le _ _))
  · simpa [tokens] using hCuts.length_le
  · intro step hMem
    obtain ⟨start, hStep⟩ := hCuts.exists_advances hMem
    exact ⟨hStep.cursor.offset_le, hStep.cursor.rest_eq⟩
  · intro t ht
    obtain ⟨start, after, hStep⟩ := hToken t ht
    exact ⟨hStep.start_le, hStep.stop_le⟩
  · intro t ht
    obtain ⟨start, after, hStep⟩ := hToken t ht
    exact hStep.literal_eq
  · intro t ht
    obtain ⟨start, after, hStep⟩ := hToken t ht
    exact hStep.progress
  · intro t ht
    exact (hCuts.head t ht).2
  · intro t ht
    obtain ⟨start, after, hStep⟩ := hToken t ht
    exact hStep.last
  · intro hEnd
    rw [hCuts.rejoin_eq hEnd, Bytes.slice_length]

end Lexer

end ScriptOptimizer
