import DistributedDB.Library.Run

/-!
# Linearization

Clients call operations on an object, and the calls may overlap.  The history has the calls
and the replies in the order in which they happen.  A linearization is an order in which the
object can execute operations one after the other with the replies of the history, such
that operations that do not overlap keep their order.

When every operation takes effect at one point between its call and its reply, the order of
these points is a linearization.  The rules below say what each kind of step needs for that.

**Results.**
* `Linearizes.call`, `Linearizes.effect`, `Linearizes.reply`: the steps that keep a
  linearization.
* `Linearizes.map`: what stands for a linearizable object is linearizable.
* `executesAll_of_run`: the runs of a system that answers each operation at once.
-/

namespace DistributedDB
namespace Linearization

universe u v w

variable {σ : Type u} {Op : Type v} {Reply : Type w}

inductive HistoryEvent (Op : Type v) (Reply : Type w) where
  | call (id : Nat) (op : Op)
  | reply (id : Nat) (r : Reply)
deriving DecidableEq, Repr

namespace HistoryEvent

def callId : HistoryEvent Op Reply → Option Nat
  | call id _ => some id
  | reply _ _ => none

def replyId : HistoryEvent Op Reply → Option Nat
  | call _ _ => none
  | reply id _ => some id

theorem mem_callIds {history : List (HistoryEvent Op Reply)} {id : Nat} :
    id ∈ history.filterMap callId ↔ ∃ op, call id op ∈ history := by
  constructor
  · intro h
    obtain ⟨e, he, hid⟩ := List.mem_filterMap.mp h
    cases e with
    | call i op =>
        obtain rfl : i = id := Option.some.inj hid
        exact ⟨op, he⟩
    | reply => cases hid
  · rintro ⟨op, h⟩
    exact List.mem_filterMap.mpr ⟨_, h, rfl⟩

theorem mem_replyIds {history : List (HistoryEvent Op Reply)} {id : Nat} :
    id ∈ history.filterMap replyId ↔ ∃ r, reply id r ∈ history := by
  constructor
  · intro h
    obtain ⟨e, he, hid⟩ := List.mem_filterMap.mp h
    cases e with
    | call => cases hid
    | reply i r =>
        obtain rfl : i = id := Option.some.inj hid
        exact ⟨r, he⟩
  · rintro ⟨r, h⟩
    exact List.mem_filterMap.mpr ⟨_, h, rfl⟩

end HistoryEvent

/-- An operation that has taken effect. -/
structure Effect (Op : Type v) (Reply : Type w) where
  id : Nat
  op : Op
  reply : Reply
deriving DecidableEq, Repr

/-- The object executes the operations one after the other. -/
inductive Executes (spec : σ → Op → Reply → σ → Prop) (s : σ) :
    List (Effect Op Reply) → σ → Prop where
  | nil : Executes spec s [] s
  | snoc {order : List (Effect Op Reply)} {t t' : σ} {x : Effect Op Reply}
      (hbefore : Executes spec s order t) (hx : spec t x.op x.reply t') :
      Executes spec s (order ++ [x]) t'

section Executes

variable {spec : σ → Op → Reply → σ → Prop} {s t : σ} {order : List (Effect Op Reply)}

theorem Executes.eq_of_nil (h : Executes spec s [] t) : s = t := by
  generalize hempty : ([] : List (Effect Op Reply)) = order at h
  cases h with
  | nil => rfl
  | snoc => exact absurd hempty.symm (List.append_ne_nil_of_right_ne_nil _ (List.cons_ne_nil _ _))

/-- The first operation. -/
theorem Executes.of_cons {x : Effect Op Reply} (h : Executes spec s (x :: order) t) :
    ∃ m, spec s x.op x.reply m ∧ Executes spec m order t := by
  generalize hfirst : x :: order = all at h
  induction h generalizing order with
  | nil => cases hfirst
  | snoc hbefore hlast ih =>
      rcases List.cons_eq_append_iff.mp hfirst with ⟨rfl, hsingle⟩ | ⟨before, rfl, rfl⟩
      · obtain ⟨rfl, rfl⟩ := List.cons.inj hsingle
        obtain rfl := hbefore.eq_of_nil
        exact ⟨_, hlast, .nil⟩
      · obtain ⟨m, hx, hrest⟩ := ih rfl
        exact ⟨m, hx, hrest.snoc hlast⟩

end Executes

/-- The order is a linearization of the history, and brings the object from `s` to `t`. -/
structure Linearizes (spec : σ → Op → Reply → σ → Prop) (s : σ)
    (history : List (HistoryEvent Op Reply)) (order : List (Effect Op Reply)) (t : σ) :
    Prop where
  legal : Executes spec s order t
  callsOnce : (history.filterMap HistoryEvent.callId).Nodup
  repliesOnce : (history.filterMap HistoryEvent.replyId).Nodup
  once : (order.map Effect.id).Nodup
  called : ∀ x ∈ order, HistoryEvent.call x.id x.op ∈ history
  replied : ∀ id r, HistoryEvent.reply id r ∈ history →
      ∃ x ∈ order, x.id = id ∧ x.reply = r
  /-- An operation that is called after the reply of another one comes after it. -/
  realTime : ∀ i r j op, [HistoryEvent.reply i r, HistoryEvent.call j op].Sublist history →
    j ∈ order.map Effect.id → [i, j].Sublist (order.map Effect.id)

section Rules

variable {spec : σ → Op → Reply → σ → Prop} {s t : σ}
  {history : List (HistoryEvent Op Reply)} {order : List (Effect Op Reply)}

/-- Two entries of a list that ends with `c`. -/
theorem pair_sublist_concat {α : Type*} {l : List α} {a b c : α}
    (h : [a, b].Sublist (l ++ [c])) : [a, b].Sublist l ∨ b = c := by
  obtain ⟨l₁, l₂, hsplit, h₁, h₂⟩ := List.sublist_append_iff.mp h
  rcases List.sublist_singleton.mp h₂ with rfl | rfl
  · rw [List.append_nil] at hsplit
    exact Or.inl (hsplit ▸ h₁)
  · refine Or.inr ?_
    have hlast := congrArg List.getLast? hsplit
    rw [List.getLast?_concat] at hlast
    exact Option.some.inj hlast

/-- **A new call.** -/
theorem Linearizes.call (h : Linearizes spec s history order t) {id : Nat}
    (hfresh : ∀ op, HistoryEvent.call id op ∉ history) (op : Op) :
    Linearizes spec s (history ++ [.call id op]) order t where
  legal := h.legal
  callsOnce := by
    rw [List.filterMap_append]
    refine h.callsOnce.append (List.nodup_singleton id) ?_
    intro i hi hnew
    obtain rfl : i = id := List.mem_singleton.mp hnew
    obtain ⟨op', hop'⟩ := HistoryEvent.mem_callIds.mp hi
    exact hfresh op' hop'
  repliesOnce := by
    rw [List.filterMap_append]
    exact (List.append_nil _).symm ▸ h.repliesOnce
  once := h.once
  called := fun x hx => List.mem_append_left _ (h.called x hx)
  replied := by
    intro i r hi
    rcases List.mem_append.mp hi with hold | hnew
    · exact h.replied i r hold
    · cases List.mem_singleton.mp hnew
  realTime := by
    intro i r j op' hpair hj
    rcases pair_sublist_concat hpair with hold | hnew
    · exact h.realTime i r j op' hold hj
    · -- the new operation has not taken effect
      obtain ⟨rfl, rfl⟩ := HistoryEvent.call.inj hnew
      obtain ⟨x, hx, rfl⟩ := List.mem_map.mp hj
      exact absurd (h.called x hx) (hfresh x.op)

/-- **An operation that has been called takes effect.** -/
theorem Linearizes.effect (h : Linearizes spec s history order t) {x : Effect Op Reply} {t' : σ}
    (hcalled : HistoryEvent.call x.id x.op ∈ history) (hnew : x.id ∉ order.map Effect.id)
    (hx : spec t x.op x.reply t') : Linearizes spec s history (order ++ [x]) t' where
  legal := h.legal.snoc hx
  callsOnce := h.callsOnce
  repliesOnce := h.repliesOnce
  once := by
    rw [List.map_append]
    refine h.once.append (List.nodup_singleton _) ?_
    intro i hi hlast
    obtain rfl : i = x.id := List.mem_singleton.mp hlast
    exact hnew hi
  called := by
    intro y hy
    rcases List.mem_append.mp hy with hold | hlast
    · exact h.called y hold
    · obtain rfl := List.mem_singleton.mp hlast
      exact hcalled
  replied := by
    intro i r hi
    obtain ⟨y, hy, heq⟩ := h.replied i r hi
    exact ⟨y, List.mem_append_left _ hy, heq⟩
  realTime := by
    intro i r j op hpair hj
    rw [List.map_append] at hj ⊢
    rcases List.mem_append.mp hj with hold | hlast
    · exact (h.realTime i r j op hpair hold).trans (List.sublist_append_left _ _)
    · -- what was replied to before has taken effect before
      obtain rfl : j = x.id := List.mem_singleton.mp hlast
      obtain ⟨y, hy, rfl, -⟩ := h.replied i r (hpair.subset List.mem_cons_self)
      have hmem : y.id ∈ order.map Effect.id := List.mem_map_of_mem hy
      exact (List.singleton_sublist.mpr hmem).append (List.Sublist.refl [x.id])

/-- **The reply of an operation that has taken effect.** -/
theorem Linearizes.reply (h : Linearizes spec s history order t) {x : Effect Op Reply}
    (hx : x ∈ order) (hfirst : ∀ r, HistoryEvent.reply x.id r ∉ history) :
    Linearizes spec s (history ++ [.reply x.id x.reply]) order t where
  legal := h.legal
  callsOnce := by
    rw [List.filterMap_append]
    exact (List.append_nil _).symm ▸ h.callsOnce
  repliesOnce := by
    rw [List.filterMap_append]
    refine h.repliesOnce.append (List.nodup_singleton x.id) ?_
    intro i hi hlast
    obtain rfl : i = x.id := List.mem_singleton.mp hlast
    obtain ⟨r, hr⟩ := HistoryEvent.mem_replyIds.mp hi
    exact hfirst r hr
  once := h.once
  called := fun y hy => List.mem_append_left _ (h.called y hy)
  replied := by
    intro i r hi
    rcases List.mem_append.mp hi with hold | hlast
    · exact h.replied i r hold
    · obtain ⟨rfl, rfl⟩ := HistoryEvent.reply.inj (List.mem_singleton.mp hlast)
      exact ⟨x, hx, rfl, rfl⟩
  realTime := by
    intro i r j op hpair hj
    rcases pair_sublist_concat hpair with hold | hlast
    · exact h.realTime i r j op hold hj
    · cases hlast

end Rules

section Map

universe u' v'

variable {σ' : Type u'} {Op' : Type v'} (f : σ → σ') (g : Op → Op')

/-- The operations under other names. -/
def HistoryEvent.mapOp : HistoryEvent Op Reply → HistoryEvent Op' Reply
  | .call id op => .call id (g op)
  | .reply id r => .reply id r

def Effect.mapOp (x : Effect Op Reply) : Effect Op' Reply :=
  ⟨x.id, g x.op, x.reply⟩

namespace HistoryEvent

variable {g} {history : List (HistoryEvent Op Reply)} {id : Nat}

theorem callId_mapOp (e : HistoryEvent Op Reply) : (e.mapOp g).callId = e.callId := by
  cases e <;> rfl

theorem replyId_mapOp (e : HistoryEvent Op Reply) : (e.mapOp g).replyId = e.replyId := by
  cases e <;> rfl

theorem eq_call_of_mapOp {e : HistoryEvent Op Reply} {op' : Op'} (h : e.mapOp g = call id op') :
    ∃ op, e = call id op ∧ g op = op' := by
  cases e with
  | call i op =>
      obtain ⟨rfl, rfl⟩ := HistoryEvent.call.inj h
      exact ⟨op, rfl, rfl⟩
  | reply => cases h

theorem eq_reply_of_mapOp {e : HistoryEvent Op Reply} {r : Reply} (h : e.mapOp g = reply id r) :
    e = reply id r := by
  cases e with
  | call => cases h
  | reply => exact congrArg₂ reply (HistoryEvent.reply.inj h).1 (HistoryEvent.reply.inj h).2

end HistoryEvent

variable {spec : σ → Op → Reply → σ → Prop}
    {spec' : σ' → Op' → Reply → σ' → Prop} {s t : σ}
  {history : List (HistoryEvent Op Reply)} {order : List (Effect Op Reply)}

theorem Executes.map (h : Executes spec s order t)
    (hspec : ∀ x ∈ order, ∀ u u', spec u x.op x.reply u' →
      spec' (f u) (g x.op) x.reply (f u')) :
    Executes spec' (f s) (order.map (Effect.mapOp g)) (f t) := by
  induction h with
  | nil => exact .nil
  | @snoc order _ _ x _ hx ih =>
      have hbefore := ih fun y hy => hspec y (List.mem_append_left _ hy)
      have hlast := hspec x (List.mem_append_right _ (List.mem_singleton_self x)) _ _ hx
      rw [List.map_append, List.map_singleton]
      exact hbefore.snoc hlast

/-- **An abstraction of the object.**  When what the object does is what another one does
that stands for it, the order is a linearization for that one. -/
theorem Linearizes.map (h : Linearizes spec s history order t)
    (hspec : ∀ id op, HistoryEvent.call id op ∈ history → ∀ r u u', spec u op r u' →
      spec' (f u) (g op) r (f u')) :
    Linearizes spec' (f s) (history.map (HistoryEvent.mapOp g)) (order.map (Effect.mapOp g))
      (f t) := by
  have hids : (order.map (Effect.mapOp g)).map Effect.id = order.map Effect.id := by
    rw [List.map_map]
    rfl
  refine ⟨?legal, ?callsOnce, ?repliesOnce, ?once, ?called, ?replied, ?realTime⟩
  case legal =>
    exact h.legal.map f g fun x hx u u' => hspec x.id x.op (h.called x hx) x.reply u u'
  case callsOnce =>
    rw [List.filterMap_map]
    exact (List.filterMap_congr fun e _ => HistoryEvent.callId_mapOp e).symm ▸ h.callsOnce
  case repliesOnce =>
    rw [List.filterMap_map]
    exact (List.filterMap_congr fun e _ => HistoryEvent.replyId_mapOp e).symm ▸ h.repliesOnce
  case once =>
    rw [hids]
    exact h.once
  case called =>
    intro y hy
    obtain ⟨x, hx, rfl⟩ := List.mem_map.mp hy
    exact List.mem_map.mpr ⟨_, h.called x hx, rfl⟩
  case replied =>
    intro id r hr
    obtain ⟨e, he, hreply⟩ := List.mem_map.mp hr
    obtain rfl := HistoryEvent.eq_reply_of_mapOp hreply
    obtain ⟨x, hx, heq⟩ := h.replied id r he
    exact ⟨_, List.mem_map_of_mem hx, heq⟩
  case realTime =>
    intro i r j op' hpair hj
    obtain ⟨pair, hsub, hmap⟩ := List.sublist_map_iff.mp hpair
    obtain ⟨e, rest, rfl, hreply, hrest⟩ := List.map_eq_cons_iff.mp hmap.symm
    obtain ⟨e', rest', rfl, hcall, hnil⟩ := List.map_eq_cons_iff.mp hrest
    obtain rfl := List.map_eq_nil_iff.mp hnil
    obtain rfl := HistoryEvent.eq_reply_of_mapOp hreply
    obtain ⟨op, rfl, -⟩ := HistoryEvent.eq_call_of_mapOp hcall
    rw [hids] at hj ⊢
    exact h.realTime i r j op hsub hj

end Map

section Sequential

variable {spec : σ → Op → Reply → σ → Prop} {s t : σ}

/-- The object executes the operations with these replies. -/
def ExecutesAll (spec : σ → Op → Reply → σ → Prop) (s : σ) (ops : List Op)
    (replies : List Reply) (t : σ) : Prop :=
  ∃ order : List (Effect Op Reply),
    order.map Effect.op = ops ∧ order.map Effect.reply = replies ∧ Executes spec s order t

theorem ExecutesAll.snoc {ops : List Op} {replies : List Reply}
    (h : ExecutesAll spec s ops replies t) {op : Op} {reply : Reply} {t' : σ}
    (hop : spec t op reply t') : ExecutesAll spec s (ops ++ [op]) (replies ++ [reply]) t' := by
  obtain ⟨order, rfl, rfl, hexecutes⟩ := h
  refine ⟨order ++ [⟨order.length, op, reply⟩], ?_, ?_, hexecutes.snoc hop⟩
  · rw [List.map_append, List.map_singleton]
  · rw [List.map_append, List.map_singleton]

/-- **A system that answers each operation at once executes them in their order**, when
every step of it is one of the object. -/
theorem executesAll_of_run {τ : Type*} {step : τ → Op → Option τ} (view : τ → σ)
    (replies : τ → List Reply) (inv : τ → Prop) (ok : Op → Prop)
    (hstep : ∀ x op y, inv x → ok op → step x op = some y →
      inv y ∧ ∃ r, replies y = replies x ++ [r] ∧ spec (view x) op r (view y))
    {x y : τ} {ops done : List Op} (hrun : Run.run step x ops = some y) (hx : inv x)
    (hops : ∀ op ∈ ops, ok op) (h : ExecutesAll spec s done (replies x) (view x)) :
    ExecutesAll spec s (done ++ ops) (replies y) (view y) := by
  induction ops generalizing x done with
  | nil =>
      obtain rfl : x = y := Option.some.inj hrun
      rwa [List.append_nil]
  | cons op ops ih =>
      obtain ⟨x', hop, hrest⟩ := Run.run_cons_eq_some.mp hrun
      obtain ⟨hok, hothers⟩ := List.forall_mem_cons.mp hops
      obtain ⟨hx', r, hr, hspec⟩ := hstep x op x' hx hok hop
      have hnext : ExecutesAll spec s (done ++ [op]) (replies x') (view x') := by
        rw [hr]
        exact h.snoc hspec
      have hall := ih hrest hx' hothers hnext
      rwa [List.append_assoc, List.singleton_append] at hall

end Sequential

end Linearization
end DistributedDB
