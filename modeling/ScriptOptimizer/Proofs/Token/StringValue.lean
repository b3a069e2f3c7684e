import Mathlib.Algebra.Group.Nat.Defs
import ScriptOptimizer.Proofs.Text.Utf8
import ScriptOptimizer.Text.Utf16

/-!
What a string literal denotes by the rules of the language: a row of UTF-16 code units, to which an
escape `\uHHHH` gives exactly the unit that it numbers. The code points of the literal say the same
as long as no half of a pair of units stands alone.
-/

/-! ### Code points as units

Halves of a pair are no code points, so units can be told apart by the code points that they stand
for.
-/

namespace ScriptOptimizer.Utf16

/-- The units of a code point. -/
def encode (n : Nat) : List Nat :=
  if n < 0x10000 then [n] else [0xD800 + (n - 0x10000) / 0x400, 0xDC00 + (n - 0x10000) % 0x400]

theorem encode_pair {high low n : Nat} (h : pair? high low = some n) :
    encode n = [high, low] ∧ Utf8.isScalar n = true := by
  unfold pair? at h
  split at h
  · rename_i hHalves
    simp only [isHigh, isLow, Bool.and_eq_true, decide_eq_true_eq] at hHalves
    obtain rfl := Option.some.inj h
    rw [encode, if_neg (by omega)]
    simp only [Utf8.isScalar, Bool.or_eq_true, Bool.and_eq_true, decide_eq_true_eq]
    have hHigh : 0xD800 + (0x10000 + (high - 0xD800) * 0x400 + (low - 0xDC00) - 0x10000) / 0x400 =
        high := by omega
    have hLow : 0xDC00 + (0x10000 + (high - 0xD800) * 0x400 + (low - 0xDC00) - 0x10000) % 0x400 =
        low := by omega
    rw [hHigh, hLow]
    exact ⟨rfl, by omega⟩
  · cases h

/-- Units tell the code points they stand for, as long as none of these is half a pair. -/
theorem flatMap_encode_inj {ms ns : List Nat} (hm : ∀ m ∈ ms, Utf8.isScalar m = true)
    (hn : ∀ n ∈ ns, Utf8.isScalar n = true) (h : ms.flatMap encode = ns.flatMap encode) :
    ms = ns := by
  have hne (n : Nat) : encode n ≠ [] := by
    unfold encode
    split <;> exact List.cons_ne_nil _ _
  induction ms generalizing ns with
  | nil =>
    cases ns with
    | nil => rfl
    | cons n ns => exact absurd (List.append_eq_nil_iff.1 h.symm).1 (hne n)
  | cons m ms ih =>
    cases ns with
    | nil => exact absurd (List.append_eq_nil_iff.1 h).1 (hne m)
    | cons n ns =>
      obtain ⟨hScalarM, hm⟩ := List.forall_mem_cons.1 hm
      obtain ⟨hScalarN, hn⟩ := List.forall_mem_cons.1 hn
      simp only [Utf8.isScalar, Bool.or_eq_true, Bool.and_eq_true, decide_eq_true_eq]
        at hScalarM hScalarN
      simp only [List.flatMap_cons, encode] at h
      -- The first unit tells whether a second one belongs to it.
      have hHead : m = n ∧ ms.flatMap encode = ns.flatMap encode := by
        split at h <;> split at h <;>
          simp only [List.cons_append, List.nil_append, List.cons.injEq] at h
        · exact h
        · omega
        · omega
        · exact ⟨by omega, h.2.2⟩
      rw [hHead.1, ih hm hn hHead.2]

end ScriptOptimizer.Utf16

namespace ScriptOptimizer.StringLiteral

/-! ### Reading by the rules of the language -/

/-- A piece of the body of a literal: a character, the unit that a four-digit escape numbers, or
nothing, where a backslash before a line break continues the literal. -/
inductive Element where
  | character (rune : Nat)
  | unit (u : Nat)
  | nothing
deriving DecidableEq, Repr

namespace Element

/-- The units that the piece denotes. -/
def units : Element → List Nat
  | character rune => Utf16.encode rune
  | unit u => [u]
  | nothing => []

/-- The code points of a row of pieces. Two halves of a pair count as one when their escapes follow
each other. -/
def characters : List Element → List Nat
  | [] => []
  | nothing :: rest => characters rest
  | character rune :: rest => rune :: characters rest
  | unit u :: unit v :: rest =>
    match Utf16.pair? u v with
    | some rune => rune :: characters rest
    | none => u :: characters (unit v :: rest)
  | unit u :: rest => u :: characters rest

end Element

/-- The value of a digit in a base up to sixteen. -/
def digitValue (c : Nat) : Nat :=
  if 48 ≤ c ∧ c ≤ 57 then c - 48
  else if 97 ≤ c ∧ c ≤ 102 then c - 87
  else if 65 ≤ c ∧ c ≤ 70 then c - 55
  else 0

/-- The number that digits write. -/
def number (base : Nat) (digits : List Nat) : Nat :=
  digits.foldl (fun n d => n * base + digitValue d) 0

/-- Is the character an octal digit? -/
def isOctal (c : Nat) : Bool := 48 ≤ c && c ≤ 55

/-- What a character stands for behind a backslash when no more characters belong to the escape. -/
def escaped : Nat → Nat
  | 110 => 10
  | 116 => 9
  | 114 => 13
  | 98 => 8
  | 102 => 12
  | 118 => 11
  | c => c

/-- The piece at the front of a body, and how many characters write it. An octal number has three
digits at most, and two when the first is above three. -/
def element : List Nat → Element × Nat
  | 92 :: c :: rest =>
    if c ∈ [10, 0x2028, 0x2029] then (.nothing, 2)
    else if c = 13 then (.nothing, if rest.head? = some 10 then 3 else 2)
    else if c = 120 then (.character (number 16 (rest.take 2)), 4)
    else if c = 117 then (.unit (number 16 (rest.take 4)), 6)
    else if isOctal c then
      let digits := ((c :: rest).takeWhile isOctal).take (if c > 51 then 2 else 3)
      (.character (number 8 digits), 1 + digits.length)
    else (.character (escaped c), 2)
  | c :: _ => (.character c, 1)
  | [] => (.nothing, 1)

/-- The pieces of a body up to its quote. `skip` characters at the front were already read. -/
def elementsFrom (quote skip : Nat) : List Nat → List Element
  | [] => []
  | c :: rest =>
    match skip with
    | k + 1 => elementsFrom quote k rest
    | 0 =>
      if c = quote then []
      else (element (c :: rest)).1 :: elementsFrom quote ((element (c :: rest)).2 - 1) rest

/-- The pieces of a literal as it is written. -/
def elements (raw : Bytes) : List Element :=
  match Utf8.points raw with
  | [] => []
  | quote :: rest => elementsFrom quote 0 rest

/-- The string that a literal denotes: its code units. -/
def units (raw : Bytes) : List Nat := (elements raw).flatMap Element.units

/-- The code points of a literal, where half a pair that stands alone counts as one. -/
def characters (raw : Bytes) : List Nat := Element.characters (elements raw)

/-- No half of a pair stands alone. -/
def Whole (raw : Bytes) : Prop := ∀ n ∈ characters raw, Utf8.isScalar n = true

/-! ### Units and code points -/

theorem elementsFrom_skip (quote skip : Nat) (ns : List Nat) :
    elementsFrom quote skip ns = elementsFrom quote 0 (ns.drop skip) := by
  induction skip generalizing ns with
  | zero => rfl
  | succ skip ih =>
    cases ns with
    | nil => rfl
    | cons n ns => exact ih ns

theorem element_pos (ns : List Nat) : 0 < (element ns).2 := by
  unfold element
  split
  · dsimp only
    repeat' split
    all_goals first | exact Nat.succ_pos _ | (dsimp only; omega)
  · exact Nat.succ_pos _
  · exact Nat.succ_pos _

theorem elementsFrom_cons {quote c : Nat} {rest : List Nat} (h : c ≠ quote) :
    elementsFrom quote 0 (c :: rest) = (element (c :: rest)).1 ::
      elementsFrom quote 0 ((c :: rest).drop (element (c :: rest)).2) := by
  have hPos := element_pos (c :: rest)
  rw [elementsFrom, if_neg h, elementsFrom_skip]
  obtain ⟨k, hk⟩ := Nat.exists_eq_succ_of_ne_zero (Nat.ne_of_gt hPos)
  rw [hk]
  rfl

theorem digitValue_lt (c : Nat) : digitValue c < 16 := by
  unfold digitValue
  repeat' split
  all_goals omega

theorem number_lt (digits : List Nat) : number 16 digits < 16 ^ digits.length := by
  have hFrom (n : Nat) : digits.foldl (fun n d => n * 16 + digitValue d) n <
      (n + 1) * 16 ^ digits.length := by
    induction digits generalizing n with
    | nil => simp
    | cons d digits ih =>
      have hDigit := digitValue_lt d
      calc digits.foldl (fun n d => n * 16 + digitValue d) (n * 16 + digitValue d)
          < (n * 16 + digitValue d + 1) * 16 ^ digits.length := ih _
        _ ≤ ((n + 1) * 16) * 16 ^ digits.length := Nat.mul_le_mul_right _ (by omega)
        _ = (n + 1) * 16 ^ (d :: digits).length := by
          rw [List.length_cons, Nat.pow_succ, Nat.mul_assoc, Nat.mul_comm 16]
  simpa [number] using hFrom 0

/-- The units of escapes have sixteen bits. -/
theorem unit_lt {quote skip u : Nat} {ns : List Nat} (h : .unit u ∈ elementsFrom quote skip ns) :
    u < 0x10000 := by
  fun_induction elementsFrom quote skip ns with
  | case1 => cases h
  | case2 _ _ _ ih => exact ih h
  | case3 => cases h
  | case4 c rest _ ih =>
    rcases List.mem_cons.1 h with hUnit | h
    · unfold element at hUnit
      split at hUnit
      · dsimp only at hUnit
        repeat' split at hUnit
        all_goals cases hUnit
        exact Nat.lt_of_lt_of_le (number_lt _)
          (Nat.pow_le_pow_right (by decide) (List.length_take_le 4 _))
      · cases hUnit
      · cases hUnit
    · exact ih h

/-- Where no half of a pair stands alone, the code points say which units there are. -/
theorem Element.flatMap_units {es : List Element} (hUnit : ∀ u, .unit u ∈ es → u < 0x10000)
    (hScalar : ∀ n ∈ characters es, Utf8.isScalar n = true) :
    es.flatMap units = (characters es).flatMap Utf16.encode := by
  have hLone {u : Nat} {es : List Element} {ns : List Nat}
      (hUnit : ∀ v, .unit v ∈ unit u :: es → v < 0x10000)
      (hRest : es.flatMap units = ns.flatMap Utf16.encode) :
      (unit u :: es).flatMap units = (u :: ns).flatMap Utf16.encode := by
    rw [List.flatMap_cons, List.flatMap_cons, hRest, units, Utf16.encode,
      if_pos (hUnit u List.mem_cons_self)]
  fun_induction characters es with
  | case1 => rfl
  | case2 rest ih =>
    exact ih (fun u hu => hUnit u (List.mem_cons_of_mem _ hu)) hScalar
  | case3 rune rest ih =>
    rw [List.flatMap_cons, List.flatMap_cons,
      ih (fun u hu => hUnit u (List.mem_cons_of_mem _ hu)) (List.forall_mem_cons.1 hScalar).2]
    rfl
  | case4 u v rest rune hPair ih =>
    have hRest (w : Nat) (hw : .unit w ∈ rest) : w < 0x10000 :=
      hUnit w (List.mem_cons_of_mem _ (List.mem_cons_of_mem _ hw))
    rw [List.flatMap_cons, List.flatMap_cons, List.flatMap_cons,
      ih hRest (List.forall_mem_cons.1 hScalar).2, (Utf16.encode_pair hPair).1]
    rfl
  | case5 u v rest hPair ih =>
    have hRest := ih (fun u hu => hUnit u (List.mem_cons_of_mem _ hu))
      (List.forall_mem_cons.1 hScalar).2
    exact hLone hUnit hRest
  | case6 u rest _ ih =>
    have hRest := ih (fun u hu => hUnit u (List.mem_cons_of_mem _ hu))
      (List.forall_mem_cons.1 hScalar).2
    exact hLone hUnit hRest

theorem Whole.units_eq {raw : Bytes} (h : Whole raw) :
    units raw = (characters raw).flatMap Utf16.encode := by
  refine Element.flatMap_units (fun u hu => ?_) h
  unfold elements at hu
  split at hu
  · cases hu
  · exact unit_lt hu

/-- Literals without lone halves denote the same string just if they have the same code points. -/
theorem Whole.units_inj {raw other : Bytes} (h : Whole raw) (h' : Whole other) :
    units raw = units other ↔ characters raw = characters other := by
  rw [h.units_eq, h'.units_eq]
  exact ⟨Utf16.flatMap_encode_inj h h', congrArg _⟩

theorem Whole.map_mended {raw : Bytes} (h : Whole raw) :
    (characters raw).map Utf8.mended = characters raw :=
  (List.map_congr_left fun n hn => Utf8.mended_of_scalar (h n hn)).trans (List.map_id _)

end ScriptOptimizer.StringLiteral
