import Mathlib.Data.List.Destutter
import Mathlib.Data.List.Forall2
import Mathlib.Data.List.Nodup

/-!
Lists that are sorted and filtered, and lists related element by element.

Sorting is stable, so what is filtered out does not matter for the order of the rest
(`filter_mergeSort`). Where neighbours that are equal become one, nothing is left twice exactly if
nothing stands between two that are equal (`nodup_destutter_iff`). In a list with increasing keys
every key has one element at most (`filter_key_eq`), and those with some increasing keys can be
taken key by key (`flatMap_filter_key`). Elements that are related one by one are so at every
index (`forall₂_getElem?`), and so is what is made of them. What holds of lists one after another
holds of parts joined by a separator (`intercalate_closed`).
-/

namespace CommandScript

/-! ## Stable sorting -/

section MergeSort

variable {α : Type} {le : α → α → Bool}
  (trans : ∀ a b c, le a b = true → le b c = true → le a c = true)
  (total : ∀ a b, (le a b || le b a) = true)

include trans total

/-- An element is sorted in behind those that are strictly before it. -/
theorem mergeSort_cons_eq {a : α} {l front back : List α} (sorted : l.mergeSort le = front ++ back)
    (infront : ∀ b ∈ front, (!le a b) = true) (behind : ∀ b ∈ back, le a b = true) :
    (a :: l).mergeSort le = front ++ a :: back := by
  -- There is only one such place.
  have cut : ∀ {low high : List α}, (∀ b ∈ low, (!le a b) = true) → (∀ b ∈ high, le a b = true) →
      (low ++ high).takeWhile (fun b => !le a b) = low ∧
        (low ++ high).dropWhile (fun b => !le a b) = high := by
    intro low high infront behind
    rw [List.takeWhile_append_of_pos infront, List.dropWhile_append_of_pos infront]
    cases high with
    | nil => simp
    | cons b high => simp [behind b (List.mem_cons_self ..)]
  obtain ⟨low, high, whole, without, lower⟩ := List.mergeSort_cons trans total a l
  have ordered := List.pairwise_mergeSort trans total (a :: l)
  rw [whole] at ordered ⊢
  have higher := (List.pairwise_cons.1 (List.pairwise_append.1 ordered).2.1).1
  have actual := cut lower higher
  rw [← without, sorted] at actual
  obtain ⟨sameFront, sameBack⟩ := cut infront behind
  rw [← actual.1, ← actual.2, sameFront, sameBack]

/-- Elements that are sorted out beforehand do not matter for the order of the others. -/
theorem filter_mergeSort (p : α → Bool) (l : List α) :
    (l.mergeSort le).filter p = (l.filter p).mergeSort le := by
  induction l with
  | nil => simp
  | cons a l ih =>
    obtain ⟨low, high, whole, without, lower⟩ := List.mergeSort_cons trans total a l
    have ordered := List.pairwise_mergeSort trans total (a :: l)
    rw [whole] at ordered ⊢
    have higher := (List.pairwise_cons.1 (List.pairwise_append.1 ordered).2.1).1
    rw [without, List.filter_append] at ih
    rw [List.filter_append]
    by_cases holds : p a = true
    · rw [List.filter_cons_of_pos holds, List.filter_cons_of_pos holds]
      have place := mergeSort_cons_eq trans total ih.symm
        (fun b mem => lower b (List.mem_filter.1 mem).1)
        (fun b mem => higher b (List.mem_filter.1 mem).1)
      exact place.symm
    · rw [List.filter_cons_of_neg holds, List.filter_cons_of_neg holds, ih]

end MergeSort

/-! ## Neighbours that are equal -/

section Destutter

variable {α : Type} {l : List α}

/-- A list without equal neighbours has no element twice if nothing else stands between two
that are equal. -/
theorem nodup_of_isChain (chain : l.IsChain (· ≠ ·))
    (gathered : ∀ a b, [a, b, a].Sublist l → a = b) : l.Nodup := by
  induction l with
  | nil => exact List.nodup_nil
  | cons a l ih =>
    have rest := ih chain.tail fun c d within => gathered c d (within.cons a)
    refine List.nodup_cons.2 ⟨fun mem => ?_, rest⟩
    cases l with
    | nil => cases mem
    | cons b l =>
      have differs : a ≠ b := (List.isChain_cons_cons.1 chain).1
      have later : a ∈ l := (List.mem_cons.1 mem).resolve_left differs
      have again : [a, b, a].Sublist (a :: b :: l) :=
        ((List.singleton_sublist.2 later).cons_cons b).cons_cons a
      exact differs (gathered a b again)

variable [DecidableEq α]

/-- What has no equal neighbours is left in when neighbours that are equal become one. -/
theorem sublist_destutter' {kept : List α} {a : α} (chain : kept.IsChain (· ≠ ·))
    (sublist : kept.Sublist (a :: l)) : kept.Sublist (l.destutter' (· ≠ ·) a) := by
  induction l generalizing a kept with
  | nil => exact sublist
  | cons b l ih =>
    rw [List.destutter'_cons]
    rcases List.sublist_cons_iff.1 sublist with behind | ⟨rest, rfl, behind⟩
    · split
      · exact (ih chain behind).cons a
      · rename_i same
        exact ih chain (of_not_not same ▸ behind)
    · split
      · exact (ih chain.tail behind).cons_cons a
      · rename_i same
        obtain rfl : a = b := of_not_not same
        rcases List.sublist_cons_iff.1 behind with further | ⟨more, rfl, -⟩
        · exact ih chain (further.cons_cons a)
        · exact absurd rfl (List.isChain_cons_cons.1 chain).1

theorem sublist_destutter {kept : List α} (chain : kept.IsChain (· ≠ ·))
    (sublist : kept.Sublist l) : kept.Sublist (l.destutter (· ≠ ·)) := by
  cases l with
  | nil => exact sublist
  | cons a l => exact sublist_destutter' chain sublist

/-- Where neighbours that are equal become one, no element is left twice exactly if nothing
else stands between two that are equal. -/
theorem nodup_destutter_iff :
    (l.destutter (· ≠ ·)).Nodup ↔ ∀ a b, [a, b, a].Sublist l → a = b := by
  constructor
  · intro nodup a b sublist
    by_contra differs
    have chain : [a, b, a].IsChain (· ≠ ·) := by simp [differs, Ne.symm differs]
    have both : [a, a].Sublist [a, b, a] := ((List.Sublist.refl [a]).cons b).cons_cons a
    exact List.nodup_iff_sublist.1 nodup a (both.trans (sublist_destutter chain sublist))
  · intro gathered
    refine nodup_of_isChain (List.isChain_destutter _ _) fun a b sublist => ?_
    exact gathered a b (sublist.trans (List.destutter_sublist _ _))

theorem mem_destutter {a : α} : a ∈ l.destutter (· ≠ ·) ↔ a ∈ l :=
  ⟨fun mem => (List.destutter_sublist _ l).subset mem, fun mem => List.singleton_sublist.1
    (sublist_destutter (.singleton a) (List.singleton_sublist.2 mem))⟩

end Destutter

/-! ## Filtered lists -/

/-- A list in which nothing with a property stands behind something without it. -/
theorem filter_append_filter {α : Type} {p : α → Bool} {l : List α}
    (ordered : l.Pairwise fun a b => p b = true → p a = true) :
    l.filter p ++ l.filter (fun a => !p a) = l := by
  induction l with
  | nil => rfl
  | cons a l ih =>
    obtain ⟨first, later⟩ := List.pairwise_cons.1 ordered
    by_cases holds : p a = true
    · simp [holds, ih later]
    · have none : ∀ b ∈ l, ¬p b = true := fun b mem has => holds (first b mem has)
      have all : ∀ b ∈ l, (!p b) = true := fun b mem => by simp [none b mem]
      simp [holds, List.filter_eq_nil_iff.2 none, List.filter_eq_self.2 all]

/-- Keys that are left in have the values that they had. -/
theorem lookup_filter {α β : Type} [BEq α] [LawfulBEq α] (entries : List (α × β)) (p : α → Bool)
    (key : α) : (entries.filter fun entry => p entry.1).lookup key =
      if p key then entries.lookup key else none := by
  induction entries with
  | nil => simp
  | cons entry entries ih =>
    rw [List.filter_cons, List.lookup_cons]
    grind

section Keys

variable {α : Type} {key : α → Nat} {l : List α}

/-- Where the elements of a list have increasing keys, an element is the only one with its key. -/
theorem filter_key_eq (increasing : l.Pairwise fun a b => key a < key b) {a : α} (mem : a ∈ l) :
    l.filter (key · == key a) = [a] := by
  obtain ⟨before, after, rfl⟩ := List.append_of_mem mem
  obtain ⟨-, behind, across⟩ := List.pairwise_append.1 increasing
  have noneBefore : before.filter (key · == key a) = [] := by
    refine List.filter_eq_nil_iff.2 fun b memB => ?_
    simpa using Nat.ne_of_lt (across b memB a (List.mem_cons_self ..))
  have noneAfter : after.filter (key · == key a) = [] := by
    refine List.filter_eq_nil_iff.2 fun b memB => ?_
    simpa using Nat.ne_of_gt ((List.pairwise_cons.1 behind).1 b memB)
  simp [noneBefore, noneAfter]

/-- Elements with some keys, both in increasing order, may be taken key by key. -/
theorem flatMap_filter_key {keys : List Nat} (keysIncreasing : keys.Pairwise (· < ·))
    (increasing : l.Pairwise fun a b => key a < key b) :
    (keys.flatMap fun k => l.filter (key · == k)) = l.filter fun a => keys.any (· == key a) := by
  induction keys with
  | nil => simp
  | cons k keys ih =>
    obtain ⟨least, later⟩ := List.pairwise_cons.1 keysIncreasing
    -- Elements with the least key stand in front of those with the others.
    have ordered : (l.filter fun a => (k :: keys).any (· == key a)).Pairwise fun a b =>
        (key b == k) = true → (key a == k) = true := by
      refine (increasing.filter _).imp_of_mem fun {a b} mem _ less isLeast => ?_
      have some := (List.mem_filter.1 mem).2
      simp only [List.any_cons, Bool.or_eq_true, beq_iff_eq, List.any_eq_true] at some isLeast ⊢
      rcases some with same | ⟨other, memOther, same⟩
      · exact same.symm
      · have := least other memOther
        omega
    have parts := filter_append_filter ordered
    rw [List.filter_filter, List.filter_filter] at parts
    rw [List.flatMap_cons, ih later, ← parts]
    congr 1
    · refine List.filter_congr fun a _ => ?_
      by_cases same : key a = k <;> simp [same]
    · refine List.filter_congr fun a _ => ?_
      by_cases same : key a = k
      · have none : ∀ other ∈ keys, other ≠ k := fun other mem => Nat.ne_of_gt (least other mem)
        simpa [same] using none
      · simp [beq_eq_false_iff_ne.2 same, beq_eq_false_iff_ne.2 (Ne.symm same)]

end Keys

/-! ## Related lists -/

/-- Elements that are kept or dropped alike. -/
theorem forall₂_filterMap {α β γ : Type} {R : β → γ → Prop} {f : α → Option β}
    {g : α → Option γ} {as : List α} (each : ∀ a ∈ as, Option.Rel R (f a) (g a)) :
    List.Forall₂ R (as.filterMap f) (as.filterMap g) := by
  induction as with
  | nil => exact .nil
  | cons a as ih =>
    rcases List.forall_mem_cons.1 each with ⟨first, rest⟩
    rw [List.filterMap_cons, List.filterMap_cons]
    generalize f a = kept at first ⊢
    generalize g a = keptToo at first ⊢
    cases first with
    | none => exact ih rest
    | some related => exact .cons related (ih rest)

/-- What comes of related elements is related. -/
theorem forall₂_flatMap {α β γ δ : Type} {R : α → β → Prop} {S : γ → δ → Prop} {f : α → List γ}
    {g : β → List δ} {as : List α} {bs : List β} (related : List.Forall₂ R as bs)
    (each : ∀ a ∈ as, ∀ b, R a b → List.Forall₂ S (f a) (g b)) :
    List.Forall₂ S (as.flatMap f) (bs.flatMap g) := by
  induction related with
  | nil => exact .nil
  | cons first _ ih =>
    rcases List.forall_mem_cons.1 each with ⟨firstEach, rest⟩
    rw [List.flatMap_cons, List.flatMap_cons]
    exact List.rel_append (firstEach _ first) (ih rest)

/-- What is related has the same image. -/
theorem map_eq_of_forall₂ {α β γ : Type} {R : α → β → Prop} {f : α → γ} {g : β → γ} {as : List α}
    {bs : List β} (related : List.Forall₂ R as bs) (each : ∀ a b, R a b → f a = g b) :
    as.map f = bs.map g := by
  induction related with
  | nil => rfl
  | cons first _ ih => rw [List.map_cons, List.map_cons, each _ _ first, ih]

/-- Elements that are told apart alike. -/
theorem forall₂_filter {α β : Type} {R : α → β → Prop} {p : α → Bool} {q : β → Bool} {as : List α}
    {bs : List β} (related : List.Forall₂ R as bs) (each : ∀ a b, R a b → q b = p a) :
    List.Forall₂ R (as.filter p) (bs.filter q) :=
  List.rel_filter (fun {a b} first => by show p a = true ↔ q b = true; rw [each a b first]) related

theorem isEmpty_eq_of_forall₂ {α β : Type} {R : α → β → Prop} {as : List α} {bs : List β}
    (related : List.Forall₂ R as bs) : bs.isEmpty = as.isEmpty := by
  cases related <;> rfl

/-- Related lists have related elements at every index. -/
theorem forall₂_getElem? {α β : Type} {R : α → β → Prop} {as : List α} {bs : List β}
    (related : List.Forall₂ R as bs) (n : Nat) : Option.Rel R as[n]? bs[n]? := by
  induction related generalizing n with
  | nil => exact .none
  | cons first _ ih =>
    cases n with
    | zero => exact .some first
    | succ n => exact ih n

/-! ## Joined lists -/

/-- Parts that are joined begin with the first of them. -/
theorem exists_intercalate_cons {α : Type} (separator part : List α) (parts : List (List α)) :
    ∃ more, separator.intercalate (part :: parts) = part ++ more := by
  cases parts with
  | nil => exact ⟨[], by simp⟩
  | cons next parts => exact ⟨_, by rw [List.intercalate_cons_cons, List.append_assoc]⟩

/-- What is kept when lists are appended holds of parts that are joined by a separator, if it
holds of each of them and of the separator. -/
theorem intercalate_closed {α : Type} {P : List α → Prop} {separator : List α}
    {parts : List (List α)} (nil : P []) (append : ∀ {before after}, P before → P after →
      P (before ++ after)) (cut : P separator) (each : ∀ part ∈ parts, P part) :
    P (separator.intercalate parts) := by
  induction parts with
  | nil => exact nil
  | cons part parts ih =>
    obtain ⟨first, others⟩ := List.forall_mem_cons.1 each
    cases parts with
    | nil =>
      rw [List.intercalate_singleton]
      exact first
    | cons next parts =>
      rw [List.intercalate_cons_cons]
      exact append (append first cut) (ih others)

end CommandScript
