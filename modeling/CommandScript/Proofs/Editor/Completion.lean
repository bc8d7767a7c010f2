import CommandScript.Editor.Completion
import CommandScript.Proofs.List

/-!
What completions show twice.

The candidates that begin with the word at the caret (`offered`) are put in order, literals
first, and neighbours that look the same become one (`map_look_dropRepeats`). The order is
by kind alone and sorting is stable, so candidates of one kind stay as they were
(`filter_mergeSort_kind`), and two that look the same are of one kind (`kind_of_detail`).
So none is shown twice exactly if the candidates of a kind that look the same stand
together in the tree.
-/

namespace CommandScript

namespace CompletionItem

/-- What is seen of an item in a list. -/
def look (item : CompletionItem) : String × Option String :=
  (item.label, item.detail)

/-- Items of a kind that look the same stand together. -/
def Gathered (items : List CompletionItem) : Prop :=
  ∀ first between last, [first, between, last].Sublist items → first.sameText last = true →
    between.kind = first.kind → first.sameText between = true

variable {a b : CompletionItem} {items : List CompletionItem}

theorem sameText_iff : a.sameText b = true ↔ a.look = b.look := by
  simp [sameText, look]

/-! ## Order -/

theorem startsBefore_trans (a b c : CompletionItem) (first : a.startsBefore b = true)
    (second : b.startsBefore c = true) : a.startsBefore c = true := by
  simp only [startsBefore, decide_eq_true_eq] at *
  exact Nat.le_trans first second

theorem startsBefore_total (a b : CompletionItem) :
    (a.startsBefore b || b.startsBefore a) = true := by
  simp only [startsBefore, Bool.or_eq_true, decide_eq_true_eq]
  exact Nat.le_total _ _

theorem startsBefore_of_kind (same : a.kind = b.kind) : a.startsBefore b = true := by
  rw [startsBefore, same]
  exact decide_eq_true (Nat.le_refl _)

/-- Between two items of a kind only items of this kind are sorted in. -/
theorem kind_between {between : CompletionItem} (behind : a.startsBefore between = true)
    (infront : between.startsBefore b = true) (same : a.kind = b.kind) :
    between.kind = a.kind := by
  rcases a with ⟨_, kind, _⟩
  rcases between with ⟨_, kindBetween, _⟩
  obtain rfl : kind = b.kind := same
  cases hb : b.kind <;> cases kindBetween <;>
    simp [startsBefore, CompletionKind.priority, hb] at behind infront ⊢

/-- The items of a kind stay in the order that they had. -/
theorem filter_mergeSort_kind (kind : CompletionKind) (items : List CompletionItem) :
    (items.mergeSort startsBefore).filter (·.kind == kind) = items.filter (·.kind == kind) := by
  rw [filter_mergeSort startsBefore_trans startsBefore_total]
  apply List.mergeSort_of_pairwise
  refine List.pairwise_of_forall_mem_list fun a memA b memB => startsBefore_of_kind ?_
  exact (beq_iff_eq.1 (List.mem_filter.1 memA).2).trans
    (beq_iff_eq.1 (List.mem_filter.1 memB).2).symm

/-! ## Repeats -/

/-- Dropping repeats leaves one of each run of items that look the same. -/
theorem map_look_dropRepeats (items : List CompletionItem) :
    (dropRepeats none items).map look = (items.map look).destutter (· ≠ ·) := by
  have goesOn : ∀ (rest : List CompletionItem) (previous : CompletionItem),
      (previous :: dropRepeats (some previous) rest).map look =
        (rest.map look).destutter' (· ≠ ·) previous.look := by
    intro rest
    induction rest with
    | nil => exact fun _ => rfl
    | cons item rest ih =>
      intro previous
      rw [dropRepeats, List.map_cons (l := rest), List.destutter'_cons, ← ih, ← ih]
      by_cases same : item.look = previous.look
      · simp [sameText_iff.2 same, same]
      · simp [sameText_iff, same, Ne.symm same]
  cases items with
  | nil => rfl
  | cons item rest => exact goesOn rest item

theorem mem_of_mem_dropRepeats {previous : Option CompletionItem}
    (mem : a ∈ dropRepeats previous items) : a ∈ items := by
  induction items generalizing previous with
  | nil => cases mem
  | cons item items ih =>
    rw [dropRepeats] at mem
    split at mem
    · exact List.mem_cons_of_mem _ (ih mem)
    · rcases List.mem_cons.1 mem with rfl | later
      · exact List.mem_cons_self ..
      · exact List.mem_cons_of_mem _ (ih later)

/-! ## Candidates -/

/-- Only literals come without a detail. -/
theorem kind_of_detail {context : Context} {node : CommandNode}
    (mem : a ∈ candidates context node) : a.kind = .literal ↔ a.detail = none := by
  obtain ⟨⟨name, child⟩, -, offers⟩ := List.mem_flatMap.1 mem
  have sample : ∀ parser sample, a = ofSample parser sample →
      (a.kind = .literal ↔ a.detail = none) := by
    rintro parser sample rfl
    simp [ofSample]
  simp only [ofChild, ofArgument] at offers
  split at offers
  · obtain rfl := List.mem_singleton.1 offers
    simp
  · split at offers
    · cases offers
    · split at offers
      · cases offers
      · split at offers
        all_goals
          obtain ⟨one, -, rfl⟩ := List.mem_map.1 offers
          exact sample _ _ rfl

/-- Items that look the same are of one kind. -/
theorem kind_of_look {context : Context} {node : CommandNode} (memA : a ∈ candidates context node)
    (memB : b ∈ candidates context node) (same : a.look = b.look) : a.kind = b.kind := by
  have details : a.detail = b.detail := congrArg Prod.snd same
  have kinds : a.kind = .literal ↔ b.kind = .literal := by
    rw [kind_of_detail memA, kind_of_detail memB, details]
  cases hA : a.kind <;> cases hB : b.kind <;> simp [hA, hB] at kinds ⊢

/-- What is in order before items of a kind are sorted is so afterwards, and the other way
round. -/
theorem sublist_mergeSort_iff (kind : CompletionKind) {part : List CompletionItem}
    (ofKind : ∀ item ∈ part, item.kind = kind) :
    part.Sublist (items.mergeSort startsBefore) ↔ part.Sublist items := by
  have filtered : part.filter (·.kind == kind) = part :=
    List.filter_eq_self.2 fun item mem => beq_iff_eq.2 (ofKind item mem)
  constructor
  · intro sublist
    have inside := sublist.filter (·.kind == kind)
    rw [filtered, filter_mergeSort_kind] at inside
    exact inside.trans List.filter_sublist
  · intro sublist
    have inside := sublist.filter (·.kind == kind)
    rw [filtered, ← filter_mergeSort_kind] at inside
    exact inside.trans List.filter_sublist

/-- Sorted items that look the same have no other between them exactly if those of their kind
had none before. -/
theorem gathered_iff (kinds : ∀ a ∈ items, ∀ b ∈ items, a.look = b.look → a.kind = b.kind) :
    Gathered items ↔ ∀ seen other,
      [seen, other, seen].Sublist ((items.mergeSort startsBefore).map look) → seen = other := by
  constructor
  · intro gathered seen other sublist
    obtain ⟨shown, within, looks⟩ := List.sublist_map_iff.1 sublist
    obtain ⟨first, between, last, rfl⟩ : ∃ first between last, shown = [first, between, last] :=
      List.length_eq_three.1 (by rw [← List.length_map (f := look), ← looks]; rfl)
    simp only [List.map_cons, List.map_nil, List.cons.injEq, and_true] at looks
    obtain ⟨rfl, rfl, same⟩ := looks
    have mem : ∀ item ∈ [first, between, last], item ∈ items :=
      fun item inside => List.mem_mergeSort.1 (within.subset inside)
    have kindLast := kinds first (mem first (by simp)) last (mem last (by simp)) same
    have sorted := List.pairwise_mergeSort startsBefore_trans startsBefore_total items
    obtain ⟨behindFirst, behindBetween⟩ := List.pairwise_cons.1 (sorted.sublist within)
    have kindBetween := kind_between (behindFirst between (by simp))
      ((List.pairwise_cons.1 behindBetween).1 last (by simp)) kindLast
    have before := (sublist_mergeSort_iff first.kind
      (by simp [kindBetween, kindLast])).1 within
    exact sameText_iff.1 (gathered first between last before (sameText_iff.2 same) kindBetween)
  · intro alone first between last sublist same kindBetween
    have look := sameText_iff.1 same
    have kindLast := kinds first (sublist.subset (by simp)) last (sublist.subset (by simp)) look
    have sorted := (sublist_mergeSort_iff first.kind
      (by simp [kindBetween, kindLast])).2 sublist
    have seen := sorted.map CompletionItem.look
    simp only [List.map_cons, List.map_nil, ← look] at seen
    exact sameText_iff.2 (alone _ _ seen)

end CompletionItem

/-! ## Lists of completions -/

/-- What may stand at the caret of a line and begins with the word there, in the order of
the tree. -/
def offered (context : Context) (line : List Char) (report : Option LineReport) (caret : Nat) :
    List CompletionItem :=
  let before := beforeCaret line caret
  let entry := report.bind fun r => r.entryBefore? (byteLength before)
  let node := (entry.map PathEntry.node).getD context.root
  (CompletionItem.candidates context node).filter fun item =>
    (lastWord before).isPrefixOf item.label.toList

section Completions

open CompletionItem

theorem completions_eq (context : Context) (line : List Char) (report : Option LineReport)
    (caret : Nat) : completions context line report caret =
      dropRepeats none ((offered context line report caret).mergeSort startsBefore) :=
  rfl

/-- Completions are what is offered, each look of it at least once, and never twice in a
row. None is there twice exactly if those of a kind that look the same are offered
together. -/
theorem completions_gathered (context : Context) (line : List Char)
    (report : Option LineReport) (caret : Nat) :
    let offers := offered context line report caret
    let shown := completions context line report caret
    (∀ item ∈ shown, item ∈ offers) ∧
      (∀ item ∈ offers, ∃ other ∈ shown, other.sameText item = true) ∧
      shown.IsChain (fun a b => a.sameText b = false) ∧
      (shown.Pairwise (fun a b => a.sameText b = false) ↔ Gathered offers) := by
  intro offers shown
  have looks : shown.map look = ((offers.mergeSort startsBefore).map look).destutter (· ≠ ·) :=
    map_look_dropRepeats _
  have differs : ∀ a b : CompletionItem, a.sameText b = false ↔ a.look ≠ b.look := fun a b => by
    rw [← Bool.not_eq_true, sameText_iff]
  have kinds : ∀ a ∈ offers, ∀ b ∈ offers, a.look = b.look → a.kind = b.kind :=
    fun a memA b memB => kind_of_look (List.mem_filter.1 memA).1 (List.mem_filter.1 memB).1
  refine ⟨fun item mem => ?_, fun item mem => ?_, ?_, ?_⟩
  · exact List.mem_mergeSort.1 (mem_of_mem_dropRepeats mem)
  · have seen : item.look ∈ shown.map look := by
      rw [looks, mem_destutter]
      exact List.mem_map_of_mem (List.mem_mergeSort.2 mem)
    obtain ⟨other, memOther, same⟩ := List.mem_map.1 seen
    exact ⟨other, memOther, sameText_iff.2 same⟩
  · have chain : (shown.map look).IsChain (· ≠ ·) := looks ▸ List.isChain_destutter _ _
    simpa only [differs, List.isChain_map] using chain
  · rw [gathered_iff kinds, ← nodup_destutter_iff, ← looks, List.Nodup, List.pairwise_map]
    simp only [differs]

/-- The samples of two arguments of one kind are offered one argument after the other. -/
theorem completions_repeated :
    let flag : CommandNode := ⟨.argument, [], false, none, some "brigadier:bool", []⟩
    let root : CommandNode := ⟨.root, [("a", flag), ("b", flag)], false, none, none, []⟩
    let context : Context := ⟨root, .empty, .builtin⟩
    let value (label : String) : CompletionItem := ⟨label, .value, some "brigadier:bool"⟩
    Context.build root .empty .builtin = .ok context ∧
      completions context [] none 0 =
        [value "true", value "false", value "true", value "false"] ∧
      ¬∀ context line report caret, (completions context line report caret).Pairwise
        fun a b => ¬(a.label = b.label ∧ a.detail = b.detail) := by
  intro flag root context value
  have offers : offered context [] none 0 =
      [value "true", value "false", value "true", value "false"] := rfl
  have shown : completions context [] none 0 =
      [value "true", value "false", value "true", value "false"] := by
    rw [completions_eq, offers, List.mergeSort_of_pairwise (by decide)]
    rfl
  refine ⟨rfl, shown, fun never => ?_⟩
  have apart := never context [] none 0
  rw [shown] at apart
  revert apart
  decide

end Completions

end CommandScript
