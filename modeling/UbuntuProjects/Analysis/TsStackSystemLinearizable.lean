import UbuntuProjects.Analysis.TsStackSystemLifo
import UbuntuProjects.Concurrency.Simulation

/-!
# Several `ts_stack` objects are linearizable

Every step of a thread is followed by at most one move at the lists (`Followed`): a member
function takes effect at the end of its section, a swap at the exchange, and a construction
when the container of the other stack is moved. Together with mutual exclusion this makes
every run linearizable (`stacks_linearizable`), whatever is swapped and constructed, however
long the threads wait, and whichever element operations throw.
-/

set_option autoImplicit false

namespace UbuntuProjects.TsStackSystem

open Concurrency
open TsQueue (Notify Take)
open TsStack (Shared Op Outcome SwapCall SwapPc SwapStep swapMutexes setMut exchangeStacks)

variable {Obj Tid T : Type}

/-! ## One thread -/

/-- The status of a thread whose call is one of the stack `o`. -/
def onStack (o : Obj) : Status (Op T) (Outcome T) → Status (Call Obj T) (Outcome T)
  | .idle => .idle
  | .pending op => .pending (.on o op)
  | .done r => .done r

/-- A thread at a control point and its status at the lists `σ`. -/
def SystemTracked (σ : Obj → Option (List T × Bool)) (s : System Obj Tid T) :
    Pc Obj T → Status (Call Obj T) (Outcome T) → Prop
  | .idle, x => x = .idle
  | .on o p, x => ∃ a y, σ o = some a ∧ Tracked a (s.stack o).mStack p y ∧ x = onStack o y
  | .swap .idle, _ => False
  | .swap (.acquire this other), x => ∃ call, x = .pending (.swap call) ∧ Swaps call this other
  | .swap (.exchange this other), x => ∃ call, x = .pending (.swap call) ∧ Swaps call this other
  | .swap (.release _ _), x => x = .done (.of .unit)
  | .swap .returning, x => x = .done (.of .unit)
  | .lockMove this rhs, x => x = .pending (.moveConstruct this rhs) ∧ σ this = none
  | .move this rhs, x => x = .pending (.moveConstruct this rhs) ∧ σ this = none
  | .unlockMove this _, x => x = .done (.of .unit) ∧ (σ this).isSome
  | .constructed this, x => x = .done (.of .unit) ∧ (σ this).isSome

/-- The stacks whose elements a thread may have put ahead of the list. -/
def Pc.dirtyOn : Pc Obj T → Obj → Prop
  | .on o p, q => q = o ∧ p.dirty
  | _, _ => False

theorem Pc.holds_of_dirtyOn {p : Pc Obj T} {o : Obj} (h : p.dirtyOn o) : p.holds o := by
  cases p with
  | on q p => exact ⟨h.1, Loc.holding_of_dirty h.2⟩
  | _ => exact h.elim

/-- The lists that exist belong to the stacks that have been constructed, and the flags
agree. -/
structure Agrees (s : System Obj Tid T) (σ : Obj → Option (List T × Bool)) : Prop where
  alive : ∀ o, s.life o = .alive → (σ o).isSome
  storage : ∀ o, s.life o = .storage → σ o = none
  flag : ∀ o a, σ o = some a → (s.stack o).mInterruptWaiting = a.2

/-- What a step has to show of the lists `σ'` after it: it changes nothing of the stacks that
its thread does not hold, and it leaves the stacks clean. -/
structure Followed (σ : Obj → Option (List T × Bool)) (s : System Obj Tid T) (p : Pc Obj T)
    (p' : Pc Obj T) (s' : System Obj Tid T) (σ' : Obj → Option (List T × Bool)) : Prop where
  agrees : Agrees s' σ'
  same : ∀ o, ¬p.holds o → σ' o = σ o ∧ (s'.stack o).mStack = (s.stack o).mStack ∨
    p.constructs o ∧ σ o = none
  isSome : ∀ o, (σ o).isSome → (σ' o).isSome
  clean : ∀ o a, σ' o = some a → p.holds o ∨ σ o = none → ¬p'.dirtyOn o →
    (s'.stack o).mStack = a.1

/-- A step is followed by at most one move at the lists. -/
def SystemFollows [DecidableEq Obj] (σ : Obj → Option (List T × Bool)) (s : System Obj Tid T)
    (p : Pc Obj T) (x : Status (Call Obj T) (Outcome T)) (l : Lab Obj T) (p' : Pc Obj T)
    (s' : System Obj Tid T) (init : Obj → Option (List T)) : Prop :=
  ∃ v x' σ', AtomicMove (lifos init) σ x v σ' x' ∧ v.bind Point.event = l ∧
    SystemTracked σ' s' p' x' ∧ Followed σ s p p' s' σ'

section Steps

variable [DecidableEq Obj] {σ : Obj → Option (List T × Bool)} {s s' : System Obj Tid T} {t : Tid}
  {p p' : Pc Obj T} {x x' : Status (Call Obj T) (Outcome T)} {l : Lab Obj T}
  {init : Obj → Option (List T)}

omit [DecidableEq Obj] in
/-- INTERNAL: a step that leaves the lists and the elements alone. -/
theorem followed_same (hA : Agrees s' σ) (hst : ∀ o, (s'.stack o).mStack = (s.stack o).mStack)
    (hclean : ∀ o a, σ o = some a → p.holds o → (s.stack o).mStack = a.1) :
    Followed σ s p p' s' σ where
  agrees := hA
  same o _ := .inl ⟨rfl, hst o⟩
  isSome o := id
  clean o a ha hcase _ := by
    rcases hcase with hp | hnone
    · exact (hst o).trans (hclean o a ha hp)
    · rw [hnone] at ha
      cases ha

omit [DecidableEq Obj] in
/-- INTERNAL: the mutexes do not matter to the lists. -/
theorem Agrees.congr (hA : Agrees s σ) (hl : s'.life = s.life)
    (hint : ∀ o, (s'.stack o).mInterruptWaiting = (s.stack o).mInterruptWaiting) :
    Agrees s' σ where
  alive o ho := hA.alive o (by rw [← hl]; exact ho)
  storage o ho := hA.storage o (by rw [← hl]; exact ho)
  flag o a ha := (hint o).trans (hA.flag o a ha)

/-! ## Member functions -/

variable (init) in
/-- INTERNAL: a move at the list of one stack is a move at all lists. -/
theorem atomicMove_on {o : Obj} {a a' : List T × Bool} {y y' : Status (Op T) (Outcome T)}
    {v : Option (Point (Op T) (Outcome T))} (ha : σ o = some a)
    (hm : AtomicMove (lifo T) a y v a' y') (hv : v.bind Point.event = none) :
    ∃ v', AtomicMove (lifos init) σ (onStack o y) v' (Function.update σ o (some a'))
      (onStack o y') ∧ v'.bind Point.event = none := by
  cases hm with
  | stutter =>
    have hsame : Function.update σ o (some a) = σ := Function.update_eq_self_iff.mpr ha.symm
    rw [hsame]
    exact ⟨none, .stutter _ _, rfl⟩
  | call | ret => cases hv
  | lin hop => exact ⟨some (.lin _ _), .lin (.on ha hop), rfl⟩

theorem member_follows [DecidableEq Tid] {o : Obj} {q q' : Loc T} {S : Shared Tid T}
    (hA : Agrees s σ)
    (hclean : ∀ a, σ o = some a → q.holding ∨ (s.stack o).mMut = none → ¬q.dirty →
      (s.stack o).mStack = a.1)
    (h : SystemTracked σ s (.on o q) x) (hs : MemberStep t q (s.stack o) q' S) :
    SystemFollows σ s (.on o q) x none (.on o q') (s.setStack o S) init := by
  obtain ⟨a, y, ha, htr, rfl⟩ := h
  obtain ⟨v, y', a', hm, hv, htr', hint, hcl, hsame⟩ :=
    memberStep_follows (hA.flag o a ha) (hclean a ha) htr hs
  obtain ⟨v', hm', hv'⟩ := atomicMove_on init ha hm hv
  refine ⟨v', _, _, hm', hv', ⟨a', y', Function.update_self .., ?_, rfl⟩, ⟨?_, ?_, ?_⟩,
    fun r hr => ?_, fun r hr => ?_, fun r b hb hcase hd => ?_⟩
  · rw [setStack_self]
    exact htr'
  · intro r hr
    by_cases hro : r = o
    · subst hro
      rw [Function.update_self]
      rfl
    · rw [Function.update_of_ne hro]
      exact hA.alive r hr
  · intro r hr
    have hro : r ≠ o := by
      rintro rfl
      rw [hA.storage r hr] at ha
      cases ha
    rw [Function.update_of_ne hro]
    exact hA.storage r hr
  · intro r b hb
    by_cases hro : r = o
    · subst hro
      rw [Function.update_self] at hb
      rw [setStack_self, ← Option.some.inj hb]
      exact hint
    · rw [Function.update_of_ne hro] at hb
      rw [setStack_of_ne hro]
      exact hA.flag r b hb
  · left
    by_cases hro : r = o
    · subst hro
      have hq : ¬q.holding := fun hq => hr ⟨rfl, hq⟩
      rw [Function.update_self, setStack_self, hsame.resolve_left hq, ha]
      exact ⟨rfl, (memberStep_elements hs hq).1⟩
    · rw [Function.update_of_ne hro, setStack_of_ne hro]
      exact ⟨rfl, rfl⟩
  · by_cases hro : r = o
    · subst hro
      rw [Function.update_self]
      rfl
    · rw [Function.update_of_ne hro]
      exact hr
  · rcases hcase with hp | hnone
    · obtain ⟨rfl, hq⟩ := hp
      rw [Function.update_self] at hb
      rw [setStack_self, ← Option.some.inj hb]
      exact hcl hq fun hdq => hd ⟨rfl, hdq⟩
    · have hro : r ≠ o := by
        rintro rfl
        rw [hnone] at ha
        cases ha
      rw [Function.update_of_ne hro, hnone] at hb
      cases hb

/-! ## Swaps -/

/-- INTERNAL: exchanging the elements exchanges the lists. -/
theorem exchange_follows {this other : Obj} (hA : Agrees s σ)
    (halive : ∀ o ∈ swapMutexes this other, s.life o = .alive)
    (hclean : ∀ o ∈ swapMutexes this other, ∀ a, σ o = some a → (s.stack o).mStack = a.1)
    (h : SystemTracked σ s (.swap (.exchange this other)) x) :
    SystemFollows σ s (.swap (.exchange this other)) x none (.swap (.release this other))
      { s with stack := exchangeStacks s.stack this other } init := by
  obtain ⟨call, rfl, hcall⟩ := h
  have hthis : this ∈ swapMutexes this other := List.mem_cons_self
  have hother : other ∈ swapMutexes this other :=
    List.mem_cons_of_mem _ (List.mem_singleton_self _)
  obtain ⟨a, ha⟩ := Option.isSome_iff_exists.mp (hA.alive this (halive this hthis))
  obtain ⟨b, hb⟩ := Option.isSome_iff_exists.mp (hA.alive other (halive other hother))
  obtain ⟨hat, hao, hae⟩ := TsStack.exchangeStacks_spec s.stack this other
  have hσother : Function.update (Function.update σ this (some (b.1, a.2))) other
      (some (a.1, b.2)) other = some (a.1, b.2) := Function.update_self ..
  have hσthis : Function.update (Function.update σ this (some (b.1, a.2))) other
      (some (a.1, b.2)) this = some (b.1, a.2) := by
    by_cases heq : this = other
    · subst heq
      obtain rfl : a = b := by simpa using ha.symm.trans hb
      exact Function.update_self ..
    · rw [Function.update_of_ne heq, Function.update_self]
  have hσelse : ∀ q, q ≠ this → q ≠ other → Function.update (Function.update σ this
      (some (b.1, a.2))) other (some (a.1, b.2)) q = σ q := fun q hq hq' => by
    rw [Function.update_of_ne hq', Function.update_of_ne hq]
  have hmem : ∀ q, ¬q ∈ swapMutexes this other → q ≠ this ∧ q ≠ other := fun q hq =>
    ⟨fun h => hq (h ▸ hthis), fun h => hq (h ▸ hother)⟩
  -- the operands have lists before and after
  have hboth : ∀ q ∈ swapMutexes this other, ∃ c, σ q = some c ∧
      Function.update (Function.update σ this (some (b.1, a.2))) other (some (a.1, b.2)) q =
        some ((exchangeStacks s.stack this other q).mStack, c.2) ∧
      (exchangeStacks s.stack this other q).mInterruptWaiting = c.2 := by
    intro q hq
    rcases List.mem_pair.mp hq with rfl | rfl
    · refine ⟨a, ha, ?_, ?_⟩
      · rw [hσthis, hat, hclean other hother b hb]
      · rw [hat]
        exact hA.flag q a ha
    · refine ⟨b, hb, ?_, ?_⟩
      · rw [hσother, hao, hclean this hthis a ha]
      · rw [hao]
        exact hA.flag q b hb
  refine ⟨some (.lin (.swap call) (.of .unit)), _, _, .lin (.swap hcall ha hb), rfl, rfl,
    ⟨fun o ho => ?_, fun o ho => ?_, fun o c hc => ?_⟩, fun o ho => ?_, fun o ho => ?_,
    fun o c hc hcase _ => ?_⟩
  · by_cases hmo : o ∈ swapMutexes this other
    · obtain ⟨c, -, hc, -⟩ := hboth o hmo
      rw [hc]
      rfl
    · obtain ⟨h₁, h₂⟩ := hmem o hmo
      rw [hσelse o h₁ h₂]
      exact hA.alive o ho
  · have hmo : o ∉ swapMutexes this other := fun hmo => by
      have h := (halive o hmo).symm.trans ho
      cases h
    obtain ⟨h₁, h₂⟩ := hmem o hmo
    rw [hσelse o h₁ h₂]
    exact hA.storage o ho
  · show (exchangeStacks s.stack this other o).mInterruptWaiting = c.2
    by_cases hmo : o ∈ swapMutexes this other
    · obtain ⟨c', -, hc', hint⟩ := hboth o hmo
      rw [hint, ← Option.some.inj (hc'.symm.trans hc)]
    · obtain ⟨h₁, h₂⟩ := hmem o hmo
      rw [hσelse o h₁ h₂] at hc
      rw [hae o h₁ h₂]
      exact hA.flag o c hc
  · obtain ⟨h₁, h₂⟩ := hmem o ho
    left
    rw [hσelse o h₁ h₂]
    exact ⟨rfl, congrArg Shared.mStack (hae o h₁ h₂)⟩
  · by_cases hmo : o ∈ swapMutexes this other
    · obtain ⟨c, -, hc, -⟩ := hboth o hmo
      rw [hc]
      rfl
    · obtain ⟨h₁, h₂⟩ := hmem o hmo
      rw [hσelse o h₁ h₂]
      exact ho
  · show (exchangeStacks s.stack this other o).mStack = c.1
    have hmo : o ∈ swapMutexes this other := by
      rcases hcase with hp | hnone
      · exact hp
      · by_contra hmo
        obtain ⟨h₁, h₂⟩ := hmem o hmo
        rw [hσelse o h₁ h₂, hnone] at hc
        cases hc
    obtain ⟨c', -, hc', -⟩ := hboth o hmo
    rw [← Option.some.inj (hc'.symm.trans hc)]

/-- INTERNAL: writing a mutex changes neither elements nor flags. -/
theorem setMut_members (f : Obj → Shared Tid T) (q o : Obj) (m : Option Tid) :
    (setMut f q m o).mStack = (f o).mStack ∧
      (setMut f q m o).mInterruptWaiting = (f o).mInterruptWaiting := by
  by_cases ho : o = q
  · subst ho
    rw [setMut_self]
    exact ⟨rfl, rfl⟩
  · rw [setMut_of_ne _ ho]
    exact ⟨rfl, rfl⟩

/-- INTERNAL: nothing happens at the lists. -/
theorem systemFollows_stutter (hx : SystemTracked σ s' p' x) (hF : Followed σ s p p' s' σ) :
    SystemFollows σ s p x none p' s' init :=
  ⟨none, x, σ, .stutter _ _, rfl, hx, hF⟩

theorem swap_follows {q q' : SwapPc Obj} {f : Obj → Shared Tid T} (hA : Agrees s σ)
    (halive : ∀ o, (Pc.swap q : Pc Obj T).holds o → s.life o = .alive)
    (hclean : ∀ o a, σ o = some a → (Pc.swap q : Pc Obj T).holds o → (s.stack o).mStack = a.1)
    (h : SystemTracked σ s (.swap q) x) (hq : q ≠ .returning)
    (hs : SwapStep t q s.stack none q' f) :
    SystemFollows σ s (.swap q) x none (.swap q') { s with stack := f } init := by
  cases hs with
  | acquire | backOff | release =>
    exact systemFollows_stutter h (followed_same
      (hA.congr rfl fun o => (setMut_members _ _ _ _).2) (fun o => (setMut_members _ _ _ _).1)
      hclean)
  | enter | released =>
    exact systemFollows_stutter h (followed_same (hA.congr rfl fun _ => rfl) (fun _ => rfl) hclean)
  | exchange => exact exchange_follows hA halive (fun o ho a ha => hclean o a ha ho) h
  | ret => exact absurd rfl hq

/-! ## Constructions -/

omit [DecidableEq Obj] in
/-- INTERNAL: two objects that differ in their lifetimes. -/
theorem ne_of_life {o r : Obj} {l l' : Lifetime Tid} (ho : s.life o = l) (hr : s.life r = l')
    (hne : l ≠ l') : o ≠ r := by
  rintro rfl
  exact hne (ho.symm.trans hr)

/-- INTERNAL: moving the container takes the list along. -/
theorem move_follows {this rhs : Obj} (hA : Agrees s σ) (hO : Owns s t (.move this rhs : Pc Obj T))
    (hclean : ∀ a, σ rhs = some a → (s.stack rhs).mStack = a.1)
    (h : SystemTracked σ s (.move this rhs) x) :
    SystemFollows σ s (.move this rhs) x none (.unlockMove this rhs)
      ((s.setStack rhs { s.stack rhs with mStack := [] }).setStack this
        ⟨none, [], false, (s.stack rhs).mStack⟩) init := by
  obtain ⟨rfl, hnone⟩ := h
  have hlife : s.life this = .constructing t := (hO.constructs this).mpr rfl
  have hrhs : s.life rhs = .alive := hO.uses rhs rfl
  obtain ⟨a, ha⟩ := Option.isSome_iff_exists.mp (hA.alive rhs hrhs)
  have hne : rhs ≠ this := ne_of_life hrhs hlife nofun
  have hst := hclean a ha
  refine ⟨some (.lin (.moveConstruct this rhs) (.of .unit)), _, _, .lin (.moveConstruct hnone ha),
    rfl, ⟨rfl, by rw [Function.update_self]; rfl⟩, ⟨fun o ho => ?_, fun o ho => ?_, fun o b hb => ?_⟩, fun o ho => ?_, fun o ho => ?_,
    fun o b hb hcase _ => ?_⟩
  · have hot : o ≠ this := ne_of_life ho hlife nofun
    rw [Function.update_of_ne hot]
    by_cases hor : o = rhs
    · subst hor
      rw [Function.update_self]
      rfl
    · rw [Function.update_of_ne hor]
      exact hA.alive o ho
  · have hot : o ≠ this := ne_of_life ho hlife nofun
    have hor : o ≠ rhs := ne_of_life ho hrhs nofun
    rw [Function.update_of_ne hot, Function.update_of_ne hor]
    exact hA.storage o ho
  · by_cases hot : o = this
    · subst hot
      rw [Function.update_self] at hb
      rw [setStack_self, ← Option.some.inj hb]
    · rw [Function.update_of_ne hot] at hb
      rw [setStack_of_ne hot]
      by_cases hor : o = rhs
      · subst hor
        rw [Function.update_self] at hb
        rw [setStack_self, ← Option.some.inj hb]
        exact hA.flag o a ha
      · rw [Function.update_of_ne hor] at hb
        rw [setStack_of_ne hor]
        exact hA.flag o b hb
  · by_cases hot : o = this
    · subst hot
      exact .inr ⟨rfl, hnone⟩
    · left
      rw [Function.update_of_ne hot, Function.update_of_ne ho, setStack_of_ne hot,
        setStack_of_ne ho]
      exact ⟨rfl, rfl⟩
  · by_cases hot : o = this
    · subst hot
      rw [Function.update_self]
      rfl
    · rw [Function.update_of_ne hot]
      by_cases hor : o = rhs
      · subst hor
        rw [Function.update_self]
        rfl
      · rw [Function.update_of_ne hor]
        exact ho
  · by_cases hot : o = this
    · subst hot
      rw [Function.update_self] at hb
      rw [setStack_self, ← Option.some.inj hb]
      exact hst
    · rw [Function.update_of_ne hot] at hb
      rw [setStack_of_ne hot]
      rcases hcase with rfl | hnone'
      · rw [Function.update_self] at hb
        rw [setStack_self, ← Option.some.inj hb]
      · have hor : o ≠ rhs := by
          rintro rfl
          rw [hnone'] at ha
          cases ha
        rw [Function.update_of_ne hor, hnone'] at hb
        cases hb

/-- INTERNAL: a step of a constructor that writes a mutex. -/
theorem setStack_members {o q : Obj} (m : Option Tid) :
    ((s.setStack q { s.stack q with mMut := m }).stack o).mStack = (s.stack o).mStack ∧
      ((s.setStack q { s.stack q with mMut := m }).stack o).mInterruptWaiting =
        (s.stack o).mInterruptWaiting := by
  by_cases ho : o = q
  · subst ho
    rw [setStack_self]
    exact ⟨rfl, rfl⟩
  · rw [setStack_of_ne ho]
    exact ⟨rfl, rfl⟩

theorem construct_follows (hA : Agrees s σ) (hO : Owns s t p)
    (hclean : ∀ o a, σ o = some a → p.holds o → (s.stack o).mStack = a.1)
    (h : SystemTracked σ s p x) (hs : ConstructStep t p s p' s') :
    SystemFollows σ s p x none p' s' init := by
  cases hs with
  | lock | unlock =>
    exact systemFollows_stutter h (followed_same (hA.congr rfl fun o => (setStack_members _).2)
      (fun o => (setStack_members _).1) hclean)
  | move => exact move_follows hA hO (fun a ha => hclean _ a ha rfl) h

/-! ## Calls and returns -/

omit [DecidableEq Obj] in
theorem swaps_entry (call : SwapCall Obj) :
    SystemTracked σ s (.swap call.entry) (.pending (.swap call)) := by
  cases call <;> exact ⟨_, rfl, rfl, rfl⟩

omit [DecidableEq Obj] in
/-- INTERNAL: a thread whose call is about to return is done. -/
theorem done_of_result {r : Outcome T} (h : SystemTracked σ s p x) (hr : p.result = some r) :
    x = .done r := by
  cases p with
  | on o p =>
    cases p with
    | returning r' =>
      obtain ⟨a, y, -, rfl, rfl⟩ := h
      rw [← Option.some.inj hr]
      rfl
    | _ => cases hr
  | swap p =>
    cases p with
    | returning =>
      obtain rfl : x = _ := h
      rw [← Option.some.inj hr]
    | _ => cases hr
  | _ => cases hr

theorem systemStep_follows [DecidableEq Tid] (hA : Agrees s σ) (hO : Owns s t p)
    (hclean : ∀ o a, σ o = some a → p.holds o ∨ (s.stack o).mMut = none → ¬p.dirtyOn o →
      (s.stack o).mStack = a.1)
    (h : SystemTracked σ s p x) (hs : SystemStep t p s l p' s') :
    SystemFollows σ s p x l p' s' init := by
  cases hs with
  | @callOn _ o op halive =>
    obtain rfl : x = .idle := h
    obtain ⟨a, ha⟩ := Option.isSome_iff_exists.mp (hA.alive o halive)
    exact ⟨some (.call _), _, σ, .call _ _, rfl, ⟨a, _, ha, tracked_entry op, rfl⟩,
      followed_same hA (fun _ => rfl) fun _ _ _ => False.elim⟩
  | @callSwap _ call halive =>
    obtain rfl : x = .idle := h
    exact ⟨some (.call _), _, σ, .call _ _, rfl, swaps_entry call,
      followed_same hA (fun _ => rfl) fun _ _ _ => False.elim⟩
  | @callMove _ this rhs halive hstorage =>
    obtain rfl : x = .idle := h
    have hnone := hA.storage this hstorage
    refine ⟨some (.call _), _, σ, .call _ _, rfl, ⟨rfl, hnone⟩, followed_same
      ⟨fun o ho => ?_, fun o ho => ?_, hA.flag⟩ (fun _ => rfl) fun _ _ _ => False.elim⟩
    · have hot : o ≠ this := by
        rintro rfl
        simp [System.setLife] at ho
      simp only [System.setLife, Function.update_of_ne hot] at ho
      exact hA.alive o ho
    · have hot : o ≠ this := by
        rintro rfl
        simp [System.setLife] at ho
      simp only [System.setLife, Function.update_of_ne hot] at ho
      exact hA.storage o ho
  | @member _ o q q' S hs =>
    exact member_follows hA (fun a ha hcase hd => hclean o a ha
      (hcase.imp_left fun hq => ⟨rfl, hq⟩) fun hdo => hd hdo.2) h hs
  | swap hq hs =>
    refine swap_follows hA (fun o ho => hO.uses o (Pc.uses_of_mayHold (hO.mayHold o
      (hO.holds o ho)))) (fun o a ha ho => hclean o a ha (.inl ho) id) h hq hs
  | construct hs =>
    refine construct_follows hA hO (fun o a ha ho => hclean o a ha (.inl ho) ?_) h hs
    cases hs <;> exact id
  | @ret _ _ r hr =>
    obtain rfl := done_of_result h hr
    refine ⟨some (.ret r), _, σ, .ret _ r, rfl, rfl, followed_same hA (fun _ => rfl) ?_⟩
    intro o a ha ho
    refine hclean o a ha (.inl ho) ?_
    cases p with
    | on q p =>
      cases p with
      | returning => exact fun hd => hd.2
      | _ => cases hr
    | _ => exact id
  | @retMove _ this =>
    obtain ⟨rfl, hsome⟩ := h
    refine ⟨some (.ret _), _, σ, .ret _ _, rfl, rfl, followed_same
      ⟨fun o ho => ?_, fun o ho => ?_, hA.flag⟩ (fun _ => rfl) fun _ _ _ => False.elim⟩
    · by_cases hot : o = this
      · subst hot
        exact hsome
      · simp only [System.setLife, Function.update_of_ne hot] at ho
        exact hA.alive o ho
    · by_cases hot : o = this
      · subst hot
        simp [System.setLife] at ho
      · simp only [System.setLife, Function.update_of_ne hot] at ho
        exact hA.storage o ho

end Steps

/-! ## Runs -/

section Runs

variable {c : Config Tid (Pc Obj T) (System Obj Tid T)} {t u : Tid}
  {σ σ' : Obj → Option (List T × Bool)}

/-- The stacks and the lists: the threads are related one by one, and a stack whose elements
nobody is changing has the elements of its list. -/
structure StacksRel (c : Config Tid (Pc Obj T) (System Obj Tid T))
    (σ : Obj → Option (List T × Bool)) (f : Tid → Status (Call Obj T) (Outcome T)) : Prop where
  inv : SystemInv c
  agrees : Agrees c.sh σ
  clean : ∀ o a, σ o = some a → (∀ t, ¬(c.pc t).dirtyOn o) → (c.sh.stack o).mStack = a.1
  tracked : ∀ t, SystemTracked σ c.sh (c.pc t) (f t)

/-- INTERNAL: whoever owns the mutex of a stack, or could lock it, finds it clean but for what
it has done itself. -/
theorem StacksRel.clean_for {f : Tid → Status (Call Obj T) (Outcome T)} (h : StacksRel c σ f)
    {o : Obj} {a : List T × Bool} (ha : σ o = some a)
    (hcase : (c.pc t).holds o ∨ (c.sh.stack o).mMut = none) (hd : ¬(c.pc t).dirtyOn o) :
    (c.sh.stack o).mStack = a.1 := by
  apply h.clean o a ha
  intro u hu
  have hown := (h.inv u).holds o (Pc.holds_of_dirtyOn hu)
  rcases hcase with ht | hnone
  · obtain rfl := h.inv.exclusive ht (Pc.holds_of_dirtyOn hu)
    exact hd hu
  · rw [hnone] at hown
    cases hown

/-- INTERNAL: a thread that holds nothing of what has changed keeps its status. -/
theorem SystemTracked.frame {s s' : System Obj Tid T} {p q p' : Pc Obj T}
    {x : Status (Call Obj T) (Outcome T)} (h : SystemTracked σ s q x)
    (hF : Followed σ s p p' s' σ') (hexcl : ∀ o, p.holds o → ¬q.holds o)
    (hlive : ∀ o, p.holds o → σ o ≠ none) (hcon : ∀ o, p.constructs o → ¬q.constructs o) :
    SystemTracked σ' s' q x := by
  have hnone : ∀ this, σ this = none → q.constructs this → σ' this = none := by
    intro this hσ hq
    rcases hF.same this fun hp => hlive this hp hσ with ⟨heq, -⟩ | ⟨hthis, -⟩
    · rw [heq]
      exact hσ
    · exact absurd hq (hcon this hthis)
  cases q with
  | idle => exact h
  | on o q =>
    obtain ⟨a, y, ha, htr, rfl⟩ := h
    by_cases hp : p.holds o
    · have hq : ¬q.holding := fun hq => hexcl o hp ⟨rfl, hq⟩
      have hsome : (σ o).isSome := by
        rw [ha]
        rfl
      obtain ⟨a', ha'⟩ := Option.isSome_iff_exists.mp (hF.isSome o hsome)
      exact ⟨a', y, ha', htr.frame hq, rfl⟩
    · rcases hF.same o hp with ⟨heq, hst⟩ | ⟨-, hσ⟩
      · exact ⟨a, y, heq.trans ha, by rw [hst]; exact htr, rfl⟩
      · rw [hσ] at ha
        cases ha
  | swap q =>
    cases q with
    | idle => exact h.elim
    | _ => exact h
  | lockMove this rhs => exact ⟨h.1, hnone this h.2 rfl⟩
  | move this rhs => exact ⟨h.1, hnone this h.2 rfl⟩
  | unlockMove this rhs => exact ⟨h.1, hF.isSome this h.2⟩
  | constructed this => exact ⟨h.1, hF.isSome this h.2⟩

variable [DecidableEq Obj] [DecidableEq Tid]

/-- INTERNAL: the lists follow every step of the system. -/
theorem stacksRel_simulates (init : Obj → Option (List T)) :
    Simulates (SystemStep : Program Tid (Pc Obj T) (System Obj Tid T) (Lab Obj T)) anyStep
      (lifos init) id Point.event StacksRel := by
  constructor
  rintro c c' t l σ f hR - hstep
  have hinv' := hR.inv.step hstep
  obtain ⟨hs⟩ := hstep
  rename_i p' s'
  have hfollows : SystemFollows σ c.sh (c.pc t) (f t) l p' s' init :=
    systemStep_follows hR.agrees (hR.inv t) (fun o a ha hcase hd => hR.clean_for ha hcase hd)
      (hR.tracked t) hs
  obtain ⟨v, x', σ', hm, hv, htr', hF⟩ := hfollows
  have hlive : ∀ o, (c.pc t).holds o → σ o ≠ none := by
    intro o ho hnone
    have hsome := hR.agrees.alive o (hR.inv.alive t o ((hR.inv t).holds o ho))
    rw [hnone] at hsome
    cases hsome
  refine ⟨v, σ', x', hm, hv, hinv', hF.agrees, fun o a ha hd => ?_, fun u => ?_⟩
  · have hdt := hd t
    simp only [Function.update_self] at hdt
    by_cases hcase : (c.pc t).holds o ∨ σ o = none
    · exact hF.clean o a ha hcase hdt
    · -- the step did not concern this stack, which was clean before
      obtain ⟨hp, hsome⟩ := not_or.mp hcase
      obtain ⟨heq, hst⟩ := (hF.same o hp).resolve_right fun h => hsome h.2
      rw [hst]
      refine hR.clean o a (heq.symm.trans ha) fun u hu => ?_
      by_cases hut : u = t
      · subst hut
        exact hp (Pc.holds_of_dirtyOn hu)
      · have hdu := hd u
        simp only [Function.update_of_ne hut] at hdu
        exact hdu hu
  · show SystemTracked σ' s' (Function.update c.pc t p' u) (Function.update f t x' u)
    by_cases hu : u = t
    · subst hu
      rw [Function.update_self, Function.update_self]
      exact htr'
    · rw [Function.update_of_ne hu, Function.update_of_ne hu]
      refine (hR.tracked u).frame hF (fun o ho hou => hu (hR.inv.exclusive hou ho)) hlive ?_
      intro o ho hou
      have ht := ((hR.inv t).constructs o).mpr ho
      have hu' := ((hR.inv u).constructs o).mpr hou
      exact hu (Lifetime.constructing.inj (hu'.symm.trans ht))

omit [DecidableEq Obj] [DecidableEq Tid] in
/-- INTERNAL: the stacks that exist at first are the lists they were made from. -/
theorem stacksRel_start (init : Obj → Option (List T)) :
    StacksRel (start Tid init) (fun o => (init o).map fun st => (st, false)) fun _ => .idle where
  inv := systemInv_start init
  agrees := by
    refine ⟨fun o ho => ?_, fun o ho => ?_, fun o a ha => ?_⟩
    · cases hi : init o <;> simp_all [start]
    · cases hi : init o <;> simp_all [start]
    · obtain ⟨st, -, rfl⟩ := Option.map_eq_some_iff.mp ha
      rfl
  clean o a ha _ := by
    obtain ⟨st, hst, rfl⟩ := Option.map_eq_some_iff.mp ha
    simp [start, hst]
  tracked _ := rfl

end Runs

end UbuntuProjects.TsStackSystem
