import UbuntuProjects.Concurrency.Simulation

/-!
# Serializability in a known order

An observer that also sees the moments at which the calls take effect (`Seen`) knows the
order in which they do. A serialization of what it sees is the list of the calls in that
order, each with its thread and its result, which a sequential object can produce, and in
which every thread finds the results that were returned to it, in the order of its calls
(`Serialization`). The runs of the atomic object are serialized by their points
(`AtomicRun.serialization`), and so are the runs of a program that it can follow
(`Run.serializable`).
-/

set_option autoImplicit false

namespace Concurrency

/-- What is seen of a call: that it is made, takes effect, and returns. -/
inductive Seen (Op Res : Type) where
  | call (op : Op)
  | effect (op : Op)
  | ret (r : Res)

variable {Tid Pc Sh Lab Op Res σ : Type}

/-- What is seen of a point of the atomic object. -/
def Point.seen : Point Op Res → Option (Seen Op Res)
  | .call op => some (.call op)
  | .lin op _ => some (.effect op)
  | .ret r => some (.ret r)

/-- The call that takes effect. -/
def Seen.effect? : Seen Op Res → Option Op
  | .effect op => some op
  | _ => none

/-- The result that is returned. -/
def Seen.ret? : Seen Op Res → Option Res
  | .ret r => some r
  | _ => none

/-- The calls in the order in which they take effect. -/
def effects (H : List (Tid × Seen Op Res)) : List (Tid × Op) :=
  H.filterMap fun e => e.2.effect?.map fun op => (e.1, op)

section Decidable

variable [DecidableEq Tid]

/-- The results returned to thread `t`, in order. -/
def returns (t : Tid) (H : List (Tid × Seen Op Res)) : List Res :=
  H.filterMap fun e => if e.1 = t then e.2.ret? else none

/-- The results of the calls of thread `t` in a serial order. -/
def resultsOf (t : Tid) (log : List (Tid × Op × Res)) : List Res :=
  log.filterMap fun e => if e.1 = t then some e.2.2 else none

/-- The calls in the order in which they took effect, each with its result: run one after
another they give these results and lead to `s`, and each thread was returned the results
of its calls. -/
structure Serialization (S : SeqSpec Op Res σ) (H : List (Tid × Seen Op Res))
    (log : List (Tid × Op × Res)) (s : σ) : Prop where
  order : log.map (fun e => (e.1, e.2.1)) = effects H
  legal : S.Legal S.init (log.map Prod.snd) s
  returned : ∀ t, returns t H <+: resultsOf t log

/-- The results in the log that were not yet returned to a thread. -/
def Status.due : Status Op Res → List Res
  | .done r => [r]
  | _ => []

/-- The points of the atomic object serialize its runs. -/
theorem AtomicRun.log {S : SeqSpec Op Res σ} {E : List (Tid × Point Op Res)} {s : σ}
    {f : Tid → Status Op Res} (h : AtomicRun S E s f) :
    ∃ log : List (Tid × Op × Res),
      log.map (fun e => (e.1, e.2.1)) = effects (observed Point.seen E) ∧
      S.Legal S.init (log.map Prod.snd) s ∧
      ∀ t, resultsOf t log = returns t (observed Point.seen E) ++ (f t).due := by
  induction h with
  | init => exact ⟨[], rfl, .nil, fun _ => rfl⟩
  | @move E s s' f t v st' _ hm ih =>
    obtain ⟨log, horder, hlegal, hret⟩ := ih
    have hft := hret t
    generalize hf : f t = st at hm hft
    cases hm with
    | stutter =>
      refine ⟨log, by simpa using horder, hlegal, fun u => ?_⟩
      have hsame : Function.update f t st' = f := by rw [← hf, Function.update_eq_self]
      simpa [hsame] using hret u
    | call op =>
      refine ⟨log, by simpa [Point.seen, effects, Seen.effect?] using horder, hlegal, fun u => ?_⟩
      by_cases hu : u = t
      · subst hu
        simpa [Point.seen, returns, Seen.ret?, Status.due] using hft
      · simpa [Point.seen, returns, Seen.ret?, Function.update_of_ne hu] using hret u
    | @lin _ op r hstep =>
      refine ⟨log ++ [(t, op, r)], ?_, ?_, fun u => ?_⟩
      · simpa [Point.seen, effects, Seen.effect?] using horder
      · simpa using hlegal.snoc hstep
      · by_cases hu : u = t
        · subst hu
          simpa [Point.seen, returns, Seen.ret?, Status.due, resultsOf] using hft
        · simpa [Point.seen, returns, Seen.ret?, Function.update_of_ne hu, resultsOf,
            Ne.symm hu] using hret u
    | ret r =>
      refine ⟨log, by simpa [Point.seen, effects, Seen.effect?] using horder, hlegal,
        fun u => ?_⟩
      by_cases hu : u = t
      · subst hu
        simpa [Point.seen, returns, Seen.ret?, Status.due] using hft
      · simpa [Point.seen, returns, Seen.ret?, Function.update_of_ne hu, Ne.symm hu]
          using hret u

/-- The log of the atomic object as a serialization. -/
theorem AtomicRun.serialization {S : SeqSpec Op Res σ} {E : List (Tid × Point Op Res)} {s : σ}
    {f : Tid → Status Op Res} (h : AtomicRun S E s f) :
    ∃ log, Serialization S (observed Point.seen E) log s ∧
      ∀ t, f t = .idle → returns t (observed Point.seen E) = resultsOf t log := by
  obtain ⟨log, horder, hlegal, hret⟩ := h.log
  refine ⟨log, ⟨horder, hlegal, fun t => ⟨_, (hret t).symm⟩⟩, fun t ht => ?_⟩
  rw [hret t, ht]
  exact (List.append_nil _).symm

/-- A program that the atomic object can follow, effects included, is serialized by the
order of the effects. -/
theorem Run.serializable {P : Program Tid Pc Sh Lab}
    {G : Config Tid Pc Sh → Tid × Lab → Prop} {S : SeqSpec Op Res σ}
    {view : Lab → Option (Seen Op Res)}
    {R : Config Tid Pc Sh → σ → (Tid → Status Op Res) → Prop}
    (hR : Simulates P G S view Point.seen R) {c₀ c : Config Tid Pc Sh}
    {tr : List (Tid × Lab)} (h₀ : R c₀ S.init fun _ => .idle) (h : Run P G c₀ tr c) :
    ∃ log s f, Serialization S (observed view tr) log s ∧ R c s f ∧
      ∀ t, f t = .idle → returns t (observed view tr) = resultsOf t log := by
  obtain ⟨E, s, f, hE, hRc, hobs⟩ := h.follows hR h₀
  obtain ⟨log, hlog, hidle⟩ := hE.serialization
  rw [hobs] at hlog hidle
  exact ⟨log, s, f, hlog, hRc, hidle⟩

end Decidable

end Concurrency
