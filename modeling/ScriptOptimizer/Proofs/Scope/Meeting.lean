import Mathlib.Data.List.Nodup
import Mathlib.Logic.Relation
import ScriptOptimizer.Proofs.Scope.History

/-!
Where scopes meet. The scopes around a scope fall in their numbers, and a number belongs to one
scope of a table only, so of two chains of one table the rest from the first common number on is the
same in both. That rest is what the common parent is, however it is climbed to.
-/

namespace ScriptOptimizer

variable {α : Type}

namespace ScopeRef

/-! ### Where chains meet -/

theorem dropWhile_not_mem_nil (l : List Nat) : l.dropWhile (· ∉ []) = [] := by
  induction l with
  | nil => rfl
  | cons a l ih => exact ih

theorem dropWhile_not_mem_cons {b : Nat} {bs l : List Nat} (h : b ∉ l) :
    l.dropWhile (· ∉ bs) = l.dropWhile (· ∉ b :: bs) := by
  induction l with
  | nil => rfl
  | cons a l ih =>
    rw [List.mem_cons, not_or] at h
    obtain ⟨hne, hl⟩ := h
    by_cases ha : a ∈ bs
    · simp [ha]
    · simpa [ha, Ne.symm hne] using ih hl

/-- Of two chains whose numbers fall, the meeting is the rest of the one from the first number that
the other has too. -/
theorem meet_eq_dropWhile {as bs : List Nat} (ha : as.Pairwise (· > ·)) (hb : bs.Pairwise (· > ·)) :
    meet as bs = as.dropWhile (· ∉ bs) := by
  fun_induction meet as bs with
  | case1 bs => rfl
  | case2 as _ => exact (dropWhile_not_mem_nil as).symm
  | case3 a as bs => simp
  | case4 a as b bs hne hlt ih =>
    have hnew : b ∉ a :: as := by
      intro hmem
      rcases List.mem_cons.1 hmem with rfl | hmem
      · exact hne rfl
      · exact absurd ((List.pairwise_cons.1 ha).1 b hmem) (by omega)
    rw [ih ha (List.pairwise_cons.1 hb).2]
    exact dropWhile_not_mem_cons hnew
  | case5 a as b bs hne hlt ih =>
    have hnew : a ∉ b :: bs := by
      intro hmem
      rcases List.mem_cons.1 hmem with rfl | hmem
      · exact hne rfl
      · exact absurd ((List.pairwise_cons.1 hb).1 a hmem) (by omega)
    rw [ih (List.pairwise_cons.1 ha).2 hb]
    exact (List.dropWhile_cons_of_pos (by simpa using hnew)).symm

theorem meet_cons_cons (a b : Nat) (as bs : List Nat) : meet (a :: as) (b :: bs) =
    if a = b then a :: as else if a < b then meet (a :: as) bs else meet as (b :: bs) := by
  rw [meet]

/-- From a number that both chains have they go on together. -/
def Coherent (as bs : List Nat) : Prop :=
  ∀ id xs ys, id :: xs <:+ as → id :: ys <:+ bs → xs = ys

namespace Coherent

variable {as bs as' bs' : List Nat}

theorem symm (h : Coherent as bs) : Coherent bs as :=
  fun id xs ys hxs hys => (h id ys xs hys hxs).symm

theorem suffix (h : Coherent as bs) (ha : as' <:+ as) (hb : bs' <:+ bs) : Coherent as' bs' :=
  fun id xs ys hxs hys => h id xs ys (hxs.trans ha) (hys.trans hb)

theorem meet_comm (h : Coherent as bs) : meet as bs = meet bs as := by
  fun_induction meet as bs with
  | case1 bs => cases bs <;> simp [meet]
  | case2 as hne => simp [meet]
  | case3 as a bs => simp [meet, h a as bs List.suffix_rfl List.suffix_rfl]
  | case4 a as b bs hne hlt ih =>
    rw [ih (h.suffix List.suffix_rfl (List.suffix_cons _ _)), meet_cons_cons, if_neg (Ne.symm hne),
      if_neg (Nat.lt_asymm hlt)]
  | case5 a as b bs hne hlt ih =>
    rw [ih (h.suffix (List.suffix_cons _ _) List.suffix_rfl), meet_cons_cons, if_neg (Ne.symm hne),
      if_pos (by omega)]

end Coherent

/-- What both chains end with stands around where they meet. -/
theorem suffix_meet {as bs : List Nat} {id : Nat} {rest : List Nat} (ha : as.Pairwise (· > ·))
    (hb : bs.Pairwise (· > ·)) (h : id :: rest <:+ as) (h' : id :: rest <:+ bs) :
    id :: rest <:+ meet as bs := by
  have hid : id ∈ bs := h'.mem (List.mem_cons_self ..)
  rw [meet_eq_dropWhile ha hb]
  clear ha
  induction as with
  | nil => simp at h
  | cons a as ih =>
    by_cases hmem : a ∈ bs
    · rwa [List.dropWhile_cons_of_neg (by simpa using hmem)]
    · rw [List.dropWhile_cons_of_pos (by simpa using hmem)]
      refine ih ((List.suffix_cons_iff.1 h).resolve_left fun heq => hmem ?_)
      exact (List.cons.inj heq).1 ▸ hid

/-! ### The climb -/

/-- The climb of two scopes that looks at their numbers only, given their tables and chains: the one
with the larger number climbs until its number is no larger than that of the other. Two different
scopes with the same number do not meet. -/
def climbFrom (s t : Nat) : List Nat → List Nat → Option ScopeRef
  | [], _ => none
  | _, [] => none
  | a :: as, b :: bs =>
    if ScopeRef.mk s (a :: as) = ⟨t, b :: bs⟩ then some ⟨s, a :: as⟩
    else if a = b then none
    else if a < b then climbFrom t s ((b :: bs).dropWhile (a < ·)) (a :: as)
    else climbFrom s t ((a :: as).dropWhile (b < ·)) (b :: bs)
termination_by as bs => as.length + bs.length
decreasing_by
  · have hLess : a < b := by assumption
    have := (List.dropWhile_sublist (a < ·) (l := bs)).length_le
    rw [List.dropWhile_cons_of_pos (by simpa using hLess), List.length_cons, List.length_cons]
    omega
  · have hLess : b < a := by omega
    have := (List.dropWhile_sublist (b < ·) (l := as)).length_le
    rw [List.dropWhile_cons_of_pos (by simpa using hLess), List.length_cons, List.length_cons]
    omega

/-- Where two scopes get that climb by their numbers. -/
def climb (a b : ScopeRef) : Option ScopeRef := climbFrom a.table b.table a.chain b.chain

/-- Scopes of different tables climb past each other. -/
theorem climbFrom_apart {s t : Nat} (hne : s ≠ t) (as bs : List Nat) :
    climbFrom s t as bs = none := by
  fun_induction climbFrom s t as bs with
  | case1 | case2 | case4 => rfl
  | case3 s t as a b bs heq => exact absurd (ScopeRef.mk.inj heq).1 hne
  | case5 s t as a b bs _ _ _ ih => exact ih (Ne.symm hne)
  | case6 s t as a b bs _ _ _ ih => exact ih hne

/-- To climb at once until the number is no larger changes nothing. -/
theorem meet_dropWhile (as : List Nat) (b : Nat) (bs : List Nat) :
    meet (as.dropWhile (b < ·)) (b :: bs) = meet as (b :: bs) := by
  induction as with
  | nil => rfl
  | cons a as ih =>
    by_cases hlt : b < a
    · rw [List.dropWhile_cons_of_pos (by simpa using hlt), ih, meet_cons_cons, if_neg (by omega),
        if_neg (by omega)]
    · rw [List.dropWhile_cons_of_neg (by simpa using hlt)]

/-- In one table the climb ends where the chains meet. -/
theorem climbFrom_eq {s t : Nat} {as bs : List Nat} (hst : s = t) (h : Coherent as bs) :
    climbFrom s t as bs = match meet as bs with
      | [] => none
      | chain => some ⟨s, chain⟩ := by
  fun_induction climbFrom s t as bs with
  | case1 => simp [meet]
  | case2 s t as hne => simp [meet]
  | case3 s t a as b bs heq =>
    obtain ⟨-, rfl, rfl⟩ := by simpa using heq
    simp [meet]
  | case4 s t a as bs hne =>
    obtain rfl := h _ _ _ List.suffix_rfl List.suffix_rfl
    exact absurd (hst ▸ rfl) hne
  | case5 s t a as b bs _ hne hlt ih =>
    have hsuffix := List.dropWhile_suffix (a < ·) (l := b :: bs)
    rw [ih hst.symm (h.symm.suffix hsuffix List.suffix_rfl), meet_dropWhile, h.meet_comm, hst]
  | case6 s t a as b bs _ hne hlt ih =>
    have hsuffix := List.dropWhile_suffix (b < ·) (l := a :: as)
    rw [ih hst (h.suffix hsuffix List.suffix_rfl), meet_dropWhile]

/-! ### Scopes around a scope -/

/-- The second scope is the first or stands around it, at any distance. -/
def Within : ScopeRef → ScopeRef → Prop := Relation.ReflTransGen fun r c => r.parent? = some c

theorem within_iff {r c : ScopeRef} (hr : r.chain ≠ []) :
    r.Within c ↔ c.table = r.table ∧ c.chain ≠ [] ∧ c.chain <:+ r.chain := by
  obtain ⟨k, chain⟩ := r
  constructor
  · intro h
    induction h with
    | refl => exact ⟨rfl, hr, List.suffix_rfl⟩
    | @tail c d _ hparent ih =>
      obtain ⟨htable, -, hsuffix⟩ := ih
      obtain ⟨table, _ | ⟨a, _ | ⟨b, rest⟩⟩⟩ := c
      · cases hparent
      · cases hparent
      · cases hparent
        exact ⟨htable, List.cons_ne_nil _ _, (List.suffix_cons _ _).trans hsuffix⟩
  · obtain ⟨table, inner⟩ := c
    rintro ⟨rfl, hne, front, rfl⟩
    induction front with
    | nil => exact .refl
    | cons a front ih =>
      refine .head ?_ (ih (by simp [hne]))
      cases hfront : front ++ inner with
      | nil => exact absurd (List.append_eq_nil_iff.1 hfront).2 hne
      | cons b rest => simp [parent?, hfront]

theorem Within.antisymm {r c : ScopeRef} (hr : r.chain ≠ []) (h : r.Within c) (h' : c.Within r) :
    r = c := by
  obtain ⟨htable, hne, hsuffix⟩ := (within_iff hr).1 h
  obtain ⟨-, -, hsuffix'⟩ := (within_iff hne).1 h'
  obtain ⟨k, chain⟩ := r
  obtain ⟨k', chain'⟩ := c
  obtain rfl := htable
  exact congrArg _ (hsuffix'.eq_of_length_le hsuffix.length_le)

/-- The scope is around all of the scopes, and every other one that is stands around it. -/
structure IsInnermost (rs : List ScopeRef) (c : ScopeRef) : Prop where
  within : ∀ r ∈ rs, r.Within c
  least : ∀ d, (∀ r ∈ rs, r.Within d) → c.Within d

namespace IsInnermost

variable {rs rs' : List ScopeRef} {c d r : ScopeRef}

theorem congr (h : IsInnermost rs c) (hsame : ∀ r, r ∈ rs' ↔ r ∈ rs) : IsInnermost rs' c :=
  ⟨fun r hr => h.within r ((hsame r).1 hr), fun d hd => h.least d fun r hr => hd r ((hsame r).2 hr)⟩

theorem unique (h : IsInnermost rs c) (h' : IsInnermost rs d) (hc : c.chain ≠ []) : c = d :=
  Within.antisymm hc (h.least d h'.within) (h'.least c h.within)

theorem single (r : ScopeRef) : IsInnermost [r] r :=
  ⟨by simpa using .refl, fun d hd => hd r (List.mem_singleton_self r)⟩

/-- One more scope is taken in where the scope around the others meets it. -/
theorem concat (h : IsInnermost rs c) (h' : IsInnermost [c, r] d) : IsInnermost (rs ++ [r]) d where
  within := by
    intro u hu
    rcases List.mem_append.1 hu with hu | hu
    · exact (h.within u hu).trans (h'.within c (by simp))
    · exact h'.within u (List.mem_cons_of_mem _ hu)
  least := by
    intro e he
    refine h'.least e fun u hu => ?_
    rcases List.mem_cons.1 hu with rfl | hu
    · exact h.least e fun u hu => he u (List.mem_append_left _ hu)
    · exact he u (List.mem_append_right _ hu)

end IsInnermost

end ScopeRef

/-! ### The scopes of a table -/

theorem Scope.within_ref (s : Scope α) {k : Nat} {c : ScopeRef} : (s.ref k).Within c ↔
    c.table = k ∧ c.chain ≠ [] ∧ c.chain <:+ s.id :: s.enclosing :=
  ScopeRef.within_iff (List.cons_ne_nil _ _)

namespace ScopeTable

variable {opened : Nat} {added : List (Addition α)} {t : ScopeTable α} {s u : Scope α}

theorem Intact.eq_of_id (h : t.Intact opened added) (hs : s ∈ t.scopes) (hu : u ∈ t.scopes)
    (hid : s.id = u.id) : s = u :=
  List.inj_on_of_nodup_map (h.numbers.nodup_iff.2 List.nodup_range) hs hu hid

/-- What is around a scope of the table, from any scope on, belongs to a scope of the table. -/
theorem Intact.exists_around (h : t.Intact opened added) (hs : s ∈ t.scopes) {id : Nat}
    {rest : List Nat} (hsuffix : id :: rest <:+ s.id :: s.enclosing) :
    ∃ u ∈ t.scopes, u.id = id ∧ u.enclosing = rest := by
  induction hn : s.id using Nat.strong_induction_on generalizing s with
  | _ n ih =>
    subst hn
    rcases List.suffix_cons_iff.1 hsuffix with heq | hin
    · obtain ⟨rfl, rfl⟩ := List.cons.inj heq
      exact ⟨s, hs, rfl, rfl⟩
    · rcases h.placed s hs with ⟨-, hroot⟩ | ⟨parent, hparent, henclosing, hlt⟩
      · simp [hroot] at hin
      · exact ih parent.id hlt hparent (henclosing ▸ hin) rfl

/-- The numbers around a scope fall. -/
theorem Intact.falls (h : t.Intact opened added) (hs : s ∈ t.scopes) :
    (s.id :: s.enclosing).Pairwise (· > ·) := by
  induction hn : s.id using Nat.strong_induction_on generalizing s with
  | _ n ih =>
    subst hn
    rcases h.placed s hs with ⟨-, hroot⟩ | ⟨parent, hparent, henclosing, hlt⟩
    · simp [hroot]
    · have hfalls := ih parent.id hlt hparent rfl
      rw [henclosing]
      refine List.pairwise_cons.2 ⟨fun id hid => ?_, hfalls⟩
      rcases List.mem_cons.1 hid with rfl | hid
      · exact hlt
      · exact Nat.lt_trans ((List.pairwise_cons.1 hfalls).1 id hid) hlt

/-- Every scope stands in the root scope. -/
theorem Intact.zero_mem (h : t.Intact opened added) (hs : s ∈ t.scopes) :
    0 ∈ s.id :: s.enclosing := by
  induction hn : s.id using Nat.strong_induction_on generalizing s with
  | _ n ih =>
    subst hn
    rcases h.placed s hs with ⟨hroot, -⟩ | ⟨parent, hparent, henclosing, hlt⟩
    · simp [hroot]
    · rw [henclosing]
      exact List.mem_cons_of_mem _ (ih parent.id hlt hparent rfl)

theorem Intact.coherent (h : t.Intact opened added) (hs : s ∈ t.scopes) (hu : u ∈ t.scopes) :
    ScopeRef.Coherent (s.id :: s.enclosing) (u.id :: u.enclosing) := by
  intro id xs ys hxs hys
  obtain ⟨v, hv, hid, rfl⟩ := h.exists_around hs hxs
  obtain ⟨w, hw, rfl, rfl⟩ := h.exists_around hu hys
  rw [h.eq_of_id hv hw hid]

/-- Two scopes of a table meet in a scope of the table, and it is the innermost around both. -/
theorem Intact.commonParent (h : t.Intact opened added) (k : Nat) (hs : s ∈ t.scopes)
    (hu : u ∈ t.scopes) : ∃ v ∈ t.scopes, (s.ref k).commonParent (u.ref k) = some (v.ref k) ∧
      ScopeRef.IsInnermost [s.ref k, u.ref k] (v.ref k) := by
  have hcoherent := h.coherent hs hu
  have hfalls := h.falls hs
  have hfalls' := h.falls hu
  have hleft : ScopeRef.meet (s.id :: s.enclosing) (u.id :: u.enclosing) <:+ s.id :: s.enclosing :=
    ScopeRef.meet_eq_dropWhile hfalls hfalls' ▸ List.dropWhile_suffix _
  have hright : ScopeRef.meet (s.id :: s.enclosing) (u.id :: u.enclosing) <:+ u.id :: u.enclosing :=
    hcoherent.meet_comm ▸ ScopeRef.meet_eq_dropWhile hfalls' hfalls ▸ List.dropWhile_suffix _
  have hleast {id : Nat} {rest : List Nat} :
      id :: rest <:+ s.id :: s.enclosing → id :: rest <:+ u.id :: u.enclosing →
        id :: rest <:+ ScopeRef.meet (s.id :: s.enclosing) (u.id :: u.enclosing) :=
    ScopeRef.suffix_meet hfalls hfalls'
  have hparent : (s.ref k).commonParent (u.ref k) =
      match ScopeRef.meet (s.id :: s.enclosing) (u.id :: u.enclosing) with
      | [] => none
      | chain => some ⟨k, chain⟩ := if_pos rfl
  rw [hparent]
  -- The chains meet at the latest in the root scope.
  obtain ⟨xs, back, hxs⟩ := List.append_of_mem (h.zero_mem hs)
  obtain ⟨ys, back', hys⟩ := List.append_of_mem (h.zero_mem hu)
  obtain rfl := hcoherent 0 back back' ⟨xs, hxs.symm⟩ ⟨ys, hys.symm⟩
  have hroot := hleast ⟨xs, hxs.symm⟩ ⟨ys, hys.symm⟩
  cases hmeet : ScopeRef.meet (s.id :: s.enclosing) (u.id :: u.enclosing) with
  | nil => simp [hmeet] at hroot
  | cons id rest =>
    rw [hmeet] at hleft hright hleast
    obtain ⟨v, hv, rfl, rfl⟩ := h.exists_around hs hleft
    refine ⟨v, hv, rfl, ?_, fun d hd => ?_⟩
    · simp only [List.mem_cons, List.not_mem_nil, or_false, forall_eq_or_imp, forall_eq]
      exact ⟨s.within_ref.2 ⟨rfl, List.cons_ne_nil _ _, hleft⟩,
        u.within_ref.2 ⟨rfl, List.cons_ne_nil _ _, hright⟩⟩
    · obtain ⟨htable, hne, hd'⟩ := s.within_ref.1 (hd (s.ref k) (by simp))
      obtain ⟨-, -, hd''⟩ := u.within_ref.1 (hd (u.ref k) (by simp))
      refine v.within_ref.2 ⟨htable, hne, ?_⟩
      obtain ⟨a, rest, hchain⟩ := List.exists_cons_of_ne_nil hne
      rw [hchain] at hd' hd'' ⊢
      exact hleast hd' hd''

end ScopeTable

namespace ScopeRef

open ScopeTable (Action after)

/-- The scope was opened by the actions on its table. -/
def Opened (tables : Nat → List (Action α)) (r : ScopeRef) : Prop :=
  ∃ s ∈ (after (tables r.table)).scopes, r = s.ref r.table

variable {tables : Nat → List (Action α)} {a b c : ScopeRef}

theorem Opened.chain_ne_nil (h : a.Opened tables) : a.chain ≠ [] := by
  obtain ⟨s, -, ha⟩ := h
  rw [ha]
  exact List.cons_ne_nil _ _

/-- Scopes of one table meet in the innermost scope around both. -/
theorem Opened.meets (ha : a.Opened tables) (hb : b.Opened tables) (htable : a.table = b.table) :
    ∃ c, a.commonParent b = some c ∧ c.Opened tables ∧ c.table = a.table ∧
      IsInnermost [a, b] c := by
  obtain ⟨s, hs, hsa⟩ := ha
  obtain ⟨u, hu, hub⟩ := hb
  rw [← htable] at hu hub
  obtain ⟨v, hv, hparent, hinnermost⟩ := (ScopeTable.intact_after _).commonParent a.table hs hu
  rw [← hsa, ← hub] at hparent hinnermost
  exact ⟨v.ref a.table, hparent, ⟨v, hv, rfl⟩, rfl, hinnermost⟩

/-- The climb by numbers ends where scopes meet. -/
theorem Opened.climb_eq (ha : a.Opened tables) (hb : b.Opened tables) :
    a.climb b = a.commonParent b := by
  obtain ⟨k, as⟩ := a
  obtain ⟨k', bs⟩ := b
  obtain ⟨s, hs, hsa⟩ := ha
  obtain ⟨u, hu, hub⟩ := hb
  rw [climb, commonParent]
  split
  case isTrue htable =>
    obtain rfl : k = k' := htable
    have has : as = s.id :: s.enclosing := (ScopeRef.mk.inj hsa).2
    have hbs : bs = u.id :: u.enclosing := (ScopeRef.mk.inj hub).2
    have hcoherent := (ScopeTable.intact_after _).coherent hs hu
    rw [← has, ← hbs] at hcoherent
    exact climbFrom_eq rfl hcoherent
  case isFalse htable => exact climbFrom_apart htable _ _

theorem Opened.commonParent_comm (ha : a.Opened tables) (hb : b.Opened tables)
    (htable : a.table = b.table) : a.commonParent b = b.commonParent a := by
  obtain ⟨c, hc, hopened, -, hinnermost⟩ := ha.meets hb htable
  obtain ⟨d, hd, -, -, hinnermost'⟩ := hb.meets ha htable.symm
  have hsame : IsInnermost [a, b] d := hinnermost'.congr fun r => by simp [or_comm]
  rw [hc, hd, hinnermost.unique hsame hopened.chain_ne_nil]

theorem Opened.commonParent_self (ha : a.Opened tables) : a.commonParent a = some a := by
  obtain ⟨c, hc, hopened, -, hinnermost⟩ := ha.meets ha rfl
  have hsame : IsInnermost [a, a] a := (IsInnermost.single a).congr fun r => by simp
  rw [hc, hinnermost.unique hsame hopened.chain_ne_nil]

theorem Opened.commonParent_assoc (ha : a.Opened tables) (hb : b.Opened tables)
    (hc : c.Opened tables) (hab : a.table = b.table) (hbc : b.table = c.table) :
    (a.commonParent b).bind (·.commonParent c) = (b.commonParent c).bind a.commonParent := by
  obtain ⟨d, hd, hdOpened, hdTable, hdInner⟩ := ha.meets hb hab
  obtain ⟨e, he, heOpened, heTable, heInner⟩ := hb.meets hc hbc
  obtain ⟨x, hx, hxOpened, -, hxInner⟩ := hdOpened.meets hc (hdTable.trans (hab.trans hbc))
  obtain ⟨y, hy, -, -, hyInner⟩ := ha.meets heOpened (hab.trans heTable.symm)
  have hleft : IsInnermost [a, b, c] x := hdInner.concat hxInner
  have hturned : IsInnermost [e, a] y := hyInner.congr fun r => by simp [or_comm]
  have hright : IsInnermost [a, b, c] y := (heInner.concat hturned).congr fun r => by
    simp only [List.cons_append, List.nil_append, List.mem_cons, List.not_mem_nil, or_false]
    tauto
  rw [hd, he, Option.bind_some, Option.bind_some, hx, hy,
    hleft.unique hright hxOpened.chain_ne_nil]

/-- The scopes around all of a list, joined one after another from none on. -/
def joinAll (rs : List ScopeRef) : Option ScopeRef := rs.foldl (fun c r => join c (some r)) none

theorem joinAll_innermost {k : Nat} {rs : List ScopeRef} (hne : rs ≠ [])
    (h : ∀ r ∈ rs, r.Opened tables ∧ r.table = k) :
    ∃ c, joinAll rs = some c ∧ c.Opened tables ∧ c.table = k ∧ IsInnermost rs c := by
  induction rs using List.reverseRecOn with
  | nil => exact absurd rfl hne
  | append_singleton rs r ih =>
    obtain ⟨hr, hrTable⟩ := h r (by simp)
    rw [joinAll, List.foldl_append, List.foldl_cons, List.foldl_nil]
    rcases List.eq_nil_or_concat rs with rfl | ⟨front, last, rfl⟩
    · exact ⟨r, rfl, hr, hrTable, .single r⟩
    · obtain ⟨c, hc, hOpened, hcTable, hInner⟩ := ih (by simp) fun u hu =>
        h u (List.mem_append_left _ hu)
      obtain ⟨d, hd, hdOpened, hdTable, hdInner⟩ := hOpened.meets hr (hcTable.trans hrTable.symm)
      rw [joinAll] at hc
      exact ⟨d, by rw [hc, join, hd], hdOpened, hdTable.trans hcTable, hInner.concat hdInner⟩

/-- Of scopes that were opened in any tables, two of one table have a common parent, the innermost
scope around both, and two of different tables have none; to climb by the numbers alone finds the
same. Within a table the common parent does not depend on the order or the grouping, that of a scope
with itself is the scope, and scopes that are joined one after another, in any order and any number
of times, give the innermost scope around them all. -/
theorem commonParent_innermost (tables : Nat → List (Action α)) :
    (∀ a b : ScopeRef, a.Opened tables → b.Opened tables →
      (a.table = b.table → ∃ c, a.commonParent b = some c ∧ c.Opened tables ∧
        a.Within c ∧ b.Within c ∧ ∀ d, a.Within d → b.Within d → c.Within d) ∧
      (a.table ≠ b.table → a.commonParent b = none) ∧
      a.climb b = a.commonParent b) ∧
    (∀ (k : Nat) (a b c : ScopeRef), (∀ r ∈ [a, b, c], r.Opened tables ∧ r.table = k) →
      a.commonParent b = b.commonParent a ∧ a.commonParent a = some a ∧
      (a.commonParent b).bind (·.commonParent c) = (b.commonParent c).bind a.commonParent) ∧
    ∀ (k : Nat) (rs : List ScopeRef), rs ≠ [] → (∀ r ∈ rs, r.Opened tables ∧ r.table = k) →
      ∃ c, IsInnermost rs c ∧ ∀ rs', (∀ r, r ∈ rs' ↔ r ∈ rs) → joinAll rs' = some c := by
  refine ⟨fun a b ha hb => ⟨fun htable => ?_, fun htable => if_neg htable, ha.climb_eq hb⟩,
    fun k a b c h => ?_, fun k rs hne h => ?_⟩
  · obtain ⟨c, hc, hOpened, -, hInner⟩ := ha.meets hb htable
    exact ⟨c, hc, hOpened, hInner.within a (by simp), hInner.within b (by simp),
      fun d had hbd => hInner.least d (by simp [had, hbd])⟩
  · simp only [List.mem_cons, List.not_mem_nil, or_false, forall_eq_or_imp, forall_eq] at h
    obtain ⟨⟨ha, hak⟩, ⟨hb, hbk⟩, hc, hck⟩ := h
    have hab := hak.trans hbk.symm
    exact ⟨ha.commonParent_comm hb hab, ha.commonParent_self,
      ha.commonParent_assoc hb hc hab (hbk.trans hck.symm)⟩
  · obtain ⟨c, -, hOpened, -, hInner⟩ := joinAll_innermost hne h
    refine ⟨c, hInner, fun rs' hsame => ?_⟩
    have hne' : rs' ≠ [] := by
      obtain ⟨r, rest, rfl⟩ := List.exists_cons_of_ne_nil hne
      exact List.ne_nil_of_mem ((hsame r).2 (List.mem_cons_self ..))
    obtain ⟨d, hd, -, -, hInner'⟩ := joinAll_innermost hne' fun r hr => h r ((hsame r).1 hr)
    rw [hd, (hInner.congr hsame).unique hInner' hOpened.chain_ne_nil]

/-- Two functions in a function of a table, and the function itself. -/
theorem commonParent_innermost_siblings :
    let tables (_ : Nat) : List (Action Unit) := [.enter, .enter, .leave, .enter]
    let first : ScopeRef := ⟨7, [2, 1, 0]⟩
    let second : ScopeRef := ⟨7, [3, 1, 0]⟩
    let outer : ScopeRef := ⟨7, [1, 0]⟩
    let other : ScopeRef := ⟨8, [3, 1, 0]⟩
    (∀ r ∈ [first, second, outer, other], r.Opened tables) ∧
    (∃ c, first.commonParent second = some c ∧ first.Within c ∧ second.Within c ∧
      ∀ d, first.Within d → second.Within d → c.Within d) ∧
    first.commonParent other = none ∧
    first.climb second = first.commonParent second ∧
    (first.commonParent second).bind (·.commonParent outer) =
      (second.commonParent outer).bind first.commonParent ∧
    ∃ c, IsInnermost [first, second, outer] c ∧
      joinAll [outer, second, first, second] = some c := by
  intro tables first second outer other
  have hfirst : first.Opened tables := ⟨_, .tail _ (.tail _ (.tail _ (.head _))), rfl⟩
  have hsecond : second.Opened tables := ⟨_, .head _, rfl⟩
  have houter : outer.Opened tables := ⟨_, .tail _ (.head _), rfl⟩
  have hother : other.Opened tables := ⟨_, .head _, rfl⟩
  have hall : ∀ r ∈ [first, second, outer], r.Opened tables ∧ r.table = 7 := by
    simp only [List.mem_cons, List.not_mem_nil, or_false, forall_eq_or_imp, forall_eq]
    exact ⟨⟨hfirst, rfl⟩, ⟨hsecond, rfl⟩, houter, rfl⟩
  obtain ⟨hpairs, htriples, hlists⟩ := commonParent_innermost tables
  obtain ⟨hmeets, -, hclimb⟩ := hpairs first second hfirst hsecond
  obtain ⟨c, hc, -, hinnermost⟩ := hmeets rfl
  obtain ⟨d, hd, hjoin⟩ := hlists 7 [first, second, outer] (List.cons_ne_nil _ _) hall
  refine ⟨by simp [hfirst, hsecond, houter, hother], ⟨c, hc, hinnermost⟩, ?_, hclimb,
    (htriples 7 first second outer hall).2.2, d, hd, hjoin _ fun r => ?_⟩
  · exact (hpairs first other hfirst hother).2.1 (by decide)
  · simp only [List.mem_cons, List.not_mem_nil, or_false]
    tauto

end ScopeRef

end ScriptOptimizer
