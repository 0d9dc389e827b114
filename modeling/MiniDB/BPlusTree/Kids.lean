import Mathlib.Order.WithBot
import Mathlib.Data.Multiset.UnionInter
import Mathlib.Algebra.BigOperators.Group.Multiset.Defs
import Mathlib.Tactic.Ring

/-!
# Sequences of children

An inner node of a B+ tree holds its children and separators as one alternating sequence `Kids`, so
that there is exactly one child more than separators by construction.  This file is about single
sequences, for children of any type: descending for a key, putting back what came of the child,
cutting a sequence at a separator, and the two properties of neighbouring children the trees need.

* `Kids.append`: two sequences with a separator between them; every other operation is one of these.
* `Kids.pick`, `Kids.place`, `Kids.splitAt`: descend, put back, cut.
* `Kids.Ordered`: separators ascend strictly and each child respects the two next to it.
* `Kids.bounds`: the range of the child for a key.
* `Kids.Linked`: each child leads to the next one.
-/

namespace BPlusTree

variable {K α β : Type}

/-- The children of an inner node with a separator between each two neighbours. -/
inductive Kids (K α : Type) where
  | one (child : α)
  | cons (child : α) (sep : K) (tail : Kids K α)

namespace Kids

/-- The children, from left to right. -/
def children : Kids K α → List α
  | one c => [c]
  | cons c _ t => c :: t.children

/-- The separators, from left to right. -/
def seps : Kids K α → List K
  | one _ => []
  | cons _ s t => s :: t.seps

/-- The leftmost child. -/
def head : Kids K α → α
  | one c => c
  | cons c _ _ => c

/-- Two sequences with a separator between them. -/
def append : Kids K α → K → Kids K α → Kids K α
  | one c, s, t => cons c s t
  | cons c s' l, s, t => cons c s' (l.append s t)

@[simp] theorem children_one (c : α) : (one c : Kids K α).children = [c] := rfl

@[simp] theorem children_cons (c : α) (s : K) (t : Kids K α) :
    (cons c s t).children = c :: t.children := rfl

@[simp] theorem seps_one (c : α) : (one c : Kids K α).seps = [] := rfl

@[simp] theorem seps_cons (c : α) (s : K) (t : Kids K α) : (cons c s t).seps = s :: t.seps := rfl

@[simp] theorem head_cons (c : α) (s : K) (t : Kids K α) : (cons c s t).head = c := rfl

@[simp] theorem children_append (l : Kids K α) (s : K) (t : Kids K α) :
    (l.append s t).children = l.children ++ t.children := by
  induction l with
  | one c => rfl
  | cons c s' l ih => rw [append, children_cons, ih, children_cons, List.cons_append]

@[simp] theorem seps_append (l : Kids K α) (s : K) (t : Kids K α) :
    (l.append s t).seps = l.seps ++ s :: t.seps := by
  induction l with
  | one c => rfl
  | cons c s' l ih => rw [append, seps_cons, ih, seps_cons, List.cons_append]

@[simp] theorem head_append (l : Kids K α) (s : K) (t : Kids K α) :
    (l.append s t).head = l.head := by
  cases l <;> rfl

theorem length_children (k : Kids K α) : k.children.length = k.seps.length + 1 := by
  induction k with
  | one c => rfl
  | cons c s t ih => rw [children_cons, seps_cons, List.length_cons, List.length_cons, ih]

theorem children_eq_head_cons (k : Kids K α) : k.children = k.head :: k.children.tail := by
  cases k <;> rfl

theorem head_mem_children (k : Kids K α) : k.head ∈ k.children := by
  rw [k.children_eq_head_cons]
  exact List.mem_cons_self

/-- Apply a function to every child. -/
def map (f : α → β) : Kids K α → Kids K β
  | one c => one (f c)
  | cons c s t => cons (f c) s (t.map f)

@[simp] theorem children_map (f : α → β) (k : Kids K α) :
    (k.map f).children = k.children.map f := by
  induction k with
  | one c => rfl
  | cons c s t ih => rw [map, children_cons, ih, children_cons, List.map_cons]

@[simp] theorem seps_map (f : α → β) (k : Kids K α) : (k.map f).seps = k.seps := by
  induction k with
  | one c => rfl
  | cons c s t ih => rw [map, seps_cons, ih, seps_cons]

@[simp] theorem head_map (f : α → β) (k : Kids K α) : (k.map f).head = f k.head := by
  cases k <;> rfl

/-- Cut the sequence at its separator number `m`, which then stands in neither half. -/
def splitAt : ℕ → Kids K α → Option (Kids K α × K × Kids K α)
  | _, one _ => none
  | 0, cons c s t => some (one c, s, t)
  | m + 1, cons c s t => (t.splitAt m).map fun p => (cons c s p.1, p.2.1, p.2.2)

theorem splitAt_eq_some {m : ℕ} {k l r : Kids K α} {p : K} (h : k.splitAt m = some (l, p, r)) :
    k = l.append p r ∧ l.seps.length = m := by
  induction k generalizing m l with
  | one c => simp [splitAt] at h
  | cons c s t ih =>
    cases m with
    | zero =>
      obtain ⟨rfl, rfl, rfl⟩ : one c = l ∧ s = p ∧ t = r := by simpa [splitAt] using h
      exact ⟨rfl, rfl⟩
    | succ m =>
      obtain ⟨⟨l', p', r'⟩, ht, heq⟩ := Option.map_eq_some_iff.mp h
      obtain ⟨rfl, rfl, rfl⟩ : cons c s l' = l ∧ p' = p ∧ r' = r := by simpa using heq
      obtain ⟨rfl, hlen⟩ := ih ht
      exact ⟨rfl, by rw [seps_cons, List.length_cons, hlen]⟩

theorem exists_splitAt {m : ℕ} {k : Kids K α} (h : m < k.seps.length) :
    ∃ l p r, k.splitAt m = some (l, p, r) := by
  induction k generalizing m with
  | one c => simp at h
  | cons c s t ih =>
    cases m with
    | zero => exact ⟨_, _, _, rfl⟩
    | succ m =>
      obtain ⟨l, p, r, ht⟩ := ih (m := m) (by simpa using h)
      exact ⟨_, _, _, by rw [splitAt, ht]; rfl⟩

/-! ## Neighbours -/

/-- Neighbours are linked: each child satisfies `P` with the entry point of the next child, and the
last one with `next`. -/
def Linked (P : α → ℕ → Prop) (entry : α → ℕ) : Kids K α → ℕ → Prop
  | one c, next => P c next
  | cons c _ t, next => P c (entry t.head) ∧ t.Linked P entry next

theorem linked_append {P : α → ℕ → Prop} {entry : α → ℕ} {l t : Kids K α} {s : K} {next : ℕ} :
    (l.append s t).Linked P entry next ↔
      l.Linked P entry (entry t.head) ∧ t.Linked P entry next := by
  induction l with
  | one c => rfl
  | cons c s' l ih => simp only [append, Linked, ih, head_append, and_assoc]

theorem Linked.map {P : α → ℕ → Prop} {Q : β → ℕ → Prop} {entry : α → ℕ} {entry' : β → ℕ}
    {f : α → β} {k : Kids K α} {next : ℕ} (hentry : ∀ c, entry' (f c) = entry c)
    (hPQ : ∀ c ∈ k.children, ∀ e, P c e → Q (f c) e) (h : k.Linked P entry next) :
    (k.map f).Linked Q entry' next := by
  induction k with
  | one c => exact hPQ c (by simp) _ h
  | cons c s t ih =>
    refine ⟨?_, ih (fun d hd => hPQ d (List.mem_cons_of_mem _ hd)) h.2⟩
    rw [head_map, hentry]
    exact hPQ c (by simp) _ h.1

theorem Linked.mono {P Q : α → ℕ → Prop} {entry : α → ℕ} {k : Kids K α} {next : ℕ}
    (hPQ : ∀ c ∈ k.children, ∀ e, P c e → Q c e) (h : k.Linked P entry next) :
    k.Linked Q entry next := by
  induction k with
  | one c => exact hPQ c (by simp) _ h
  | cons c s t ih =>
    exact ⟨hPQ c (by simp) _ h.1, ih (fun d hd => hPQ d (List.mem_cons_of_mem _ hd)) h.2⟩

/-- Every child of a linked sequence satisfies `P` for some successor. -/
theorem Linked.exists_of_mem {P : α → ℕ → Prop} {entry : α → ℕ} {k : Kids K α} {next : ℕ}
    (h : k.Linked P entry next) {c : α} (hc : c ∈ k.children) : ∃ e, P c e := by
  induction k with
  | one c' =>
    obtain rfl : c = c' := by simpa using hc
    exact ⟨_, h⟩
  | cons c' s t ih =>
    rcases List.mem_cons.mp hc with rfl | hc
    · exact ⟨_, h.1⟩
    · exact ih h.2 hc

/-- Two linked sequences whose children go by the same numbers start and end alike, when each child
does. -/
theorem Linked.ends {P : α → ℕ → Prop} {Q : β → ℕ → Prop} {entry f : α → ℕ} {entry' g : β → ℕ}
    {k : Kids K α} {k' : Kids K β} {next next' : ℕ} (h : k.Linked P entry next)
    (h' : k'.Linked Q entry' next') (hsame : k.children.map f = k'.children.map g)
    (hends : ∀ c ∈ k.children, ∀ d e e', f c = g d → P c e → Q d e' → e = e' ∧ entry c = entry' d) :
    next = next' ∧ entry k.head = entry' k'.head := by
  induction k generalizing k' with
  | one c =>
    cases k' with
    | one d =>
      have hcd : f c = g d := (List.cons.inj hsame).1
      exact hends c List.mem_cons_self d next next' hcd h h'
    | cons d s' t' =>
      rw [t'.children_cons, t'.children_eq_head_cons] at hsame
      cases (List.cons.inj hsame).2
  | cons c s t ih =>
    cases k' with
    | one d =>
      rw [t.children_cons, t.children_eq_head_cons] at hsame
      cases (List.cons.inj hsame).2
    | cons d s' t' =>
      obtain ⟨hcd, hrest⟩ := List.cons.inj hsame
      obtain ⟨hnext, -⟩ := ih h.2 h'.2 hrest fun c' hc' => hends c' (List.mem_cons_of_mem _ hc')
      exact ⟨hnext, (hends c List.mem_cons_self d _ _ hcd h.1 h'.1).2⟩

section Order

variable [LinearOrder K]

/-! ## Descending and putting back -/

/-- The child whose range holds `key`: the one before the first separator above `key`. -/
def pick (key : K) : Kids K α → α
  | one c => c
  | cons c s t => if key < s then c else t.pick key

/-- The position of the picked child. -/
def index (key : K) : Kids K α → ℕ
  | one _ => 0
  | cons _ s t => if key < s then 0 else t.index key + 1

/-- The children that are not picked. -/
def others (key : K) : Kids K α → List α
  | one _ => []
  | cons c s t => if key < s then t.children else c :: t.others key

/-- Put a sequence in place of the picked child. -/
def place (key : K) : Kids K α → Kids K α → Kids K α
  | one _, new => new
  | cons c s t, new => if key < s then new.append s t else cons c s (t.place key new)

theorem children_perm (key : K) (k : Kids K α) :
    k.children.Perm (k.pick key :: k.others key) := by
  induction k with
  | one c => simp [pick, others]
  | cons c s t ih =>
    rw [pick, others, children_cons]
    split
    · exact List.Perm.refl _
    · exact (ih.cons c).trans (List.Perm.swap _ _ _)

theorem pick_mem_children (key : K) (k : Kids K α) : k.pick key ∈ k.children :=
  (children_perm key k).mem_iff.mpr List.mem_cons_self

theorem children_place_perm (key : K) (k new : Kids K α) :
    (k.place key new).children.Perm (new.children ++ k.others key) := by
  induction k with
  | one c => simp [place, others]
  | cons c s t ih =>
    rw [place, others]
    split
    · rw [children_append]
    · exact (ih.cons c).trans List.perm_middle.symm

theorem pick_map (key : K) (f : α → β) (k : Kids K α) : (k.map f).pick key = f (k.pick key) := by
  induction k with
  | one c => rfl
  | cons c s t ih =>
    rw [map, pick, pick, ih]
    split <;> rfl

theorem index_le (key : K) (k : Kids K α) : k.index key ≤ k.seps.length := by
  induction k with
  | one c => simp [index]
  | cons c s t ih =>
    rw [index, seps_cons, List.length_cons]
    split <;> omega

theorem getElem?_children_index (key : K) (k : Kids K α) :
    k.children[k.index key]? = some (k.pick key) := by
  induction k with
  | one c => rfl
  | cons c s t ih =>
    rw [pick, index, children_cons]
    split
    · rfl
    · rw [List.getElem?_cons_succ, ih]

/-- What putting a sequence in place does to the two lists. -/
theorem lists_place (key : K) (k new : Kids K α) :
    (k.place key new).children =
        k.children.take (k.index key) ++ new.children ++ k.children.drop (k.index key + 1) ∧
      (k.place key new).seps =
        k.seps.take (k.index key) ++ new.seps ++ k.seps.drop (k.index key) := by
  induction k with
  | one c => simp [place, index]
  | cons c s t ih =>
    rw [place, index]
    split
    · simp
    · simp [ih.1, ih.2]

/-- Replacing the picked child by one that looks the same changes nothing but the child. -/
theorem lists_place_one {key : K} {k : Kids K α} {c : α} {f : α → β} (h : f c = f (k.pick key)) :
    (k.place key (one c)).children.map f = k.children.map f ∧
      (k.place key (one c)).seps = k.seps := by
  induction k with
  | one c' => exact ⟨congrArg (fun x => [x]) h, rfl⟩
  | cons c' s t ih =>
    rw [place]
    rw [pick] at h
    split
    · next hlt =>
      rw [if_pos hlt] at h
      simp [h]
    · next hge =>
      rw [if_neg hge] at h
      obtain ⟨h1, h2⟩ := ih h
      simp [h1, h2]

theorem head_place {key : K} {k new : Kids K α} {entry : α → ℕ}
    (h : entry new.head = entry (k.pick key)) : entry (k.place key new).head = entry k.head := by
  cases k with
  | one c => exact h
  | cons c s t =>
    rw [place]
    rw [pick] at h
    split
    · next hlt =>
      rw [if_pos hlt] at h
      rw [head_append, h, head_cons]
    · rfl

/-- Putting in place a sequence that starts where the picked child did keeps the links. -/
theorem Linked.place {P Q : α → ℕ → Prop} {entry : α → ℕ} {key : K} {k new : Kids K α} {next : ℕ}
    (h : k.Linked P entry next) (hother : ∀ c ∈ k.others key, ∀ e, P c e → Q c e)
    (hentry : entry new.head = entry (k.pick key))
    (hnew : ∀ e, P (k.pick key) e → new.Linked Q entry e) :
    (k.place key new).Linked Q entry next := by
  induction k with
  | one c => exact hnew _ h
  | cons c s t ih =>
    rw [Kids.place]
    rw [pick] at hentry hnew
    rw [others] at hother
    split
    · next hlt =>
      rw [if_pos hlt] at hnew hother
      exact linked_append.mpr ⟨hnew _ h.1, h.2.mono hother⟩
    · next hge =>
      rw [if_neg hge] at hnew hother hentry
      refine ⟨?_, ih h.2 (fun d hd => hother d (List.mem_cons_of_mem _ hd)) hentry hnew⟩
      rw [head_place hentry]
      exact hother c List.mem_cons_self _ h.1

/-! ## Order -/

/-- The separators stand in ascending order strictly between the bounds, and each child satisfies
`P` for the two bounds next to it. -/
def Ordered (P : WithBot K → WithTop K → α → Prop) : WithBot K → WithTop K → Kids K α → Prop
  | lo, hi, one c => P lo hi c
  | lo, hi, cons c s t => lo < s ∧ (s : WithTop K) < hi ∧ P lo s c ∧ t.Ordered P s hi

variable {P : WithBot K → WithTop K → α → Prop} {lo : WithBot K} {hi : WithTop K}

theorem ordered_append {l t : Kids K α} {p : K} :
    (l.append p t).Ordered P lo hi ↔
      lo < p ∧ (p : WithTop K) < hi ∧ l.Ordered P lo p ∧ t.Ordered P p hi := by
  induction l generalizing lo with
  | one c => rfl
  | cons c s l ih =>
    simp only [append, Ordered, ih]
    constructor
    · rintro ⟨h1, -, h3, h4, h5, h6, h7⟩
      exact ⟨h1.trans h4, h5, ⟨h1, WithTop.coe_lt_coe.mpr (WithBot.coe_lt_coe.mp h4), h3, h6⟩, h7⟩
    · rintro ⟨-, h2, ⟨h3, h4, h5, h6⟩, h7⟩
      exact ⟨h3, h4.trans h2, h5, WithBot.coe_lt_coe.mpr (WithTop.coe_lt_coe.mp h4), h2, h6, h7⟩

theorem Ordered.map {Q : WithBot K → WithTop K → β → Prop} {f : α → β} {k : Kids K α}
    (hPQ : ∀ lo hi, ∀ c ∈ k.children, P lo hi c → Q lo hi (f c)) (h : k.Ordered P lo hi) :
    (k.map f).Ordered Q lo hi := by
  induction k generalizing lo with
  | one c => exact hPQ lo hi c (by simp) h
  | cons c s t ih =>
    obtain ⟨h1, h2, h3, h4⟩ := h
    exact ⟨h1, h2, hPQ _ _ c (by simp) h3,
      ih (fun lo hi d hd => hPQ lo hi d (List.mem_cons_of_mem _ hd)) h4⟩

/-- The separators are inside the bounds. -/
theorem Ordered.mem_seps {k : Kids K α} (h : k.Ordered P lo hi) {s : K} (hs : s ∈ k.seps) :
    lo < s ∧ (s : WithTop K) < hi := by
  induction k generalizing lo with
  | one c => simp at hs
  | cons c s' t ih =>
    obtain ⟨h1, h2, -, h4⟩ := h
    rcases List.mem_cons.mp hs with rfl | hs
    · exact ⟨h1, h2⟩
    · exact ⟨h1.trans (ih h4 hs).1, (ih h4 hs).2⟩

/-- The separators ascend strictly. -/
theorem Ordered.pairwise_seps {k : Kids K α} (h : k.Ordered P lo hi) :
    k.seps.Pairwise (· < ·) := by
  induction k generalizing lo with
  | one c => exact List.Pairwise.nil
  | cons c s t ih =>
    obtain ⟨-, -, -, h4⟩ := h
    exact List.pairwise_cons.mpr
      ⟨fun s' hs' => WithBot.coe_lt_coe.mp (h4.mem_seps hs').1, ih h4⟩

/-- Every child satisfies `P` for some bounds. -/
theorem Ordered.exists_of_mem {k : Kids K α} (h : k.Ordered P lo hi) {c : α}
    (hc : c ∈ k.children) : ∃ lo' hi', P lo' hi' c := by
  induction k generalizing lo with
  | one c' =>
    obtain rfl : c = c' := by simpa using hc
    exact ⟨lo, hi, h⟩
  | cons c' s t ih =>
    rcases List.mem_cons.mp hc with rfl | hc
    · exact ⟨_, _, h.2.2.1⟩
    · exact ih h.2.2.2 hc

/-- The range of the picked child. -/
def bounds (key : K) : WithBot K → WithTop K → Kids K α → WithBot K × WithTop K
  | lo, hi, one _ => (lo, hi)
  | lo, hi, cons _ s t => if key < s then (lo, (s : WithTop K)) else t.bounds key s hi

/-- The picked child satisfies `P` for its range. -/
theorem Ordered.pick_bounds {k : Kids K α} (h : k.Ordered P lo hi) (key : K) :
    P (k.bounds key lo hi).1 (k.bounds key lo hi).2 (k.pick key) := by
  induction k generalizing lo with
  | one c => exact h
  | cons c s t ih =>
    obtain ⟨-, -, h3, h4⟩ := h
    rw [Kids.pick, bounds]
    split
    · exact h3
    · exact ih h4

/-- What fits the range of the picked child can take its place. -/
theorem Ordered.place_bounds {k new : Kids K α} {key : K} (h : k.Ordered P lo hi)
    (hnew : new.Ordered P (k.bounds key lo hi).1 (k.bounds key lo hi).2) :
    (k.place key new).Ordered P lo hi := by
  induction k generalizing lo with
  | one c => exact hnew
  | cons c s t ih =>
    obtain ⟨h1, h2, h3, h4⟩ := h
    rw [Kids.place]
    rw [bounds] at hnew
    split
    · next hlt =>
      rw [if_pos hlt] at hnew
      exact ordered_append.mpr ⟨h1, h2, hnew, h4⟩
    · next hge =>
      rw [if_neg hge] at hnew
      exact ⟨h1, h2, h3, ih h4 hnew⟩

/-- The range of the picked child is around the key; the separators before the child are not above
its lower bound and those after it are not below the upper one. -/
theorem Ordered.bounds_around {k : Kids K α} {key : K} (h : k.Ordered P lo hi) (hlo : lo ≤ key)
    (hhi : (key : WithTop K) < hi) :
    lo ≤ (k.bounds key lo hi).1 ∧ (k.bounds key lo hi).1 ≤ key ∧
      (key : WithTop K) < (k.bounds key lo hi).2 ∧
      (∀ s ∈ k.seps.take (k.index key), (s : WithBot K) ≤ (k.bounds key lo hi).1) ∧
      ∀ s ∈ k.seps.drop (k.index key), (k.bounds key lo hi).2 ≤ s := by
  induction k generalizing lo with
  | one c => exact ⟨le_rfl, hlo, hhi, by simp, by simp⟩
  | cons c s t ih =>
    obtain ⟨h1, -, -, h4⟩ := h
    rw [bounds, index]
    split
    · next hlt =>
      refine ⟨le_rfl, hlo, WithTop.coe_lt_coe.mpr hlt, by simp, fun s' hs' => ?_⟩
      rw [List.drop_zero, seps_cons] at hs'
      rcases List.mem_cons.mp hs' with rfl | hs'
      · exact le_rfl
      · exact WithTop.coe_le_coe.mpr (WithBot.coe_lt_coe.mp (h4.mem_seps hs').1).le
    · next hge =>
      obtain ⟨g0, g1, g2, g3, g4⟩ := ih h4 (WithBot.coe_le_coe.mpr (not_lt.mp hge))
      refine ⟨h1.le.trans g0, g1, g2, fun s' hs' => ?_, g4⟩
      rw [seps_cons, List.take_succ_cons] at hs'
      rcases List.mem_cons.mp hs' with rfl | hs'
      · exact g0
      · exact g3 s' hs'

/-- The picked child satisfies `P` for bounds around the key. -/
theorem Ordered.pick {k : Kids K α} {key : K} (h : k.Ordered P lo hi) (hlo : lo ≤ key)
    (hhi : (key : WithTop K) < hi) :
    ∃ (lo' : WithBot K) (hi' : WithTop K), lo' ≤ key ∧ (key : WithTop K) < hi' ∧
      P lo' hi' (k.pick key) := by
  obtain ⟨-, g1, g2, -, -⟩ := h.bounds_around hlo hhi
  exact ⟨_, _, g1, g2, h.pick_bounds key⟩

/-- Putting a sequence in place keeps the order when it fits the range of the picked child. -/
theorem Ordered.place {k new : Kids K α} {key : K} (h : k.Ordered P lo hi)
    (hlo : lo ≤ key) (hhi : (key : WithTop K) < hi)
    (hnew : ∀ (lo' : WithBot K) (hi' : WithTop K), P lo' hi' (k.pick key) → lo' ≤ key →
      (key : WithTop K) < hi' → new.Ordered P lo' hi') :
    (k.place key new).Ordered P lo hi := by
  obtain ⟨-, g1, g2, -, -⟩ := h.bounds_around hlo hhi
  exact h.place_bounds (hnew _ _ (h.pick_bounds key) g1 g2)

/-- A sequence in which the picked child was replaced by two does not go by the numbers of the old
one, with the left of the two in its place: the right one would have to be what comes next. -/
theorem Linked.entry_of_place {P : α → ℕ → Prop} {Q : β → ℕ → Prop} {entry f : α → ℕ}
    {entry' g : β → ℕ} {key sep : K} {k : Kids K α} {k' : Kids K β} {l r : α} {next : ℕ}
    (h : (k.place key (.cons l sep (.one r))).Linked P entry next) (h' : k'.Linked Q entry' next)
    (hsame : k.children.map f = k'.children.map g) (hl : f l = f (k.pick key))
    (hends : ∀ c, c = l ∨ c ∈ k.others key → ∀ d e e', f c = g d → P c e → Q d e' →
      e = e' ∧ entry c = entry' d)
    (hr : ∀ c ∈ k.others key, entry r ≠ entry c) : entry r = next := by
  induction k generalizing k' with
  | one c =>
    cases k' with
    | one d =>
      have hcd : f c = g d := (List.cons.inj hsame).1
      exact (hends l (Or.inl rfl) d _ _ (hl.trans hcd) h.1 h').1
    | cons d s' t' =>
      rw [t'.children_cons, t'.children_eq_head_cons] at hsame
      cases (List.cons.inj hsame).2
  | cons c s t ih =>
    cases k' with
    | one d =>
      rw [t.children_cons, t.children_eq_head_cons] at hsame
      cases (List.cons.inj hsame).2
    | cons d s' t' =>
      obtain ⟨hcd, hrest⟩ := List.cons.inj hsame
      rw [Kids.place] at h
      rw [Kids.pick] at hl
      rw [Kids.others] at hends hr
      by_cases hlt : key < s
      · rw [if_pos hlt] at h hl hends hr
        have hright := (hends l (Or.inl rfl) d _ _ (hl.trans hcd) h.1 h'.1).1
        obtain ⟨-, hhead⟩ := h.2.2.ends h'.2 hrest fun c' hc' => hends c' (Or.inr hc')
        exact absurd (hright.trans hhead.symm) (hr t.head t.head_mem_children)
      · rw [if_neg hlt] at h hl hends hr
        refine ih h.2 h'.2 hrest hl ?_ fun c' hc' => hr c' (List.mem_cons_of_mem _ hc')
        rintro c' (hc' | hc')
        · exact hends c' (Or.inl hc')
        · exact hends c' (Or.inr (List.mem_cons_of_mem _ hc'))

end Order

end Kids

end BPlusTree
