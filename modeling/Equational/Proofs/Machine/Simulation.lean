import Equational.Proofs.Machine.Basic
import Equational.Proofs.Rewriting.Derivation

/-! # The machine does what normalization computes

    `Theory.settle`, the passes and the loop of passes each have a lemma that
    the machine gets to the same outcome, with as many firings as the run was
    charged for (`settle_meets`, `pass_meets`, `normalizeWithin_leads`).

    A run that stops because its allowance is used up corresponds to a machine
    that is about to fire once more. Whether it may is for its budget to say: a
    limit that is reached ends the run, and without a limit the machine goes on
    (`normalize_leads`).
-/

namespace Equational

open Machine

namespace Theory

variable {theory : Theory} {specification : Specification}

/-- From one state the machine gets to the other. -/
def Leads (theory : Theory) : State → State → Prop :=
  StateTransition.Reaches (State.step? theory.lookup)

theorem Leads.refl (state : State) : theory.Leads state state :=
  Relation.ReflTransGen.refl

theorem Leads.trans {a b c : State} (hab : theory.Leads a b) (hbc : theory.Leads b c) :
    theory.Leads a c :=
  Relation.ReflTransGen.trans hab hbc

theorem leads_of_step? {a b : State} (h : a.step? theory.lookup = some b) : theory.Leads a b :=
  Relation.ReflTransGen.single h

/-! ## Single moves -/

section moves

variable {state : State} {phase phase' : Phase} {frames frames' : List Frame}

theorem leads_next (h : move? theory.lookup phase frames = some (.next phase' frames')) :
    theory.Leads (state.goTo phase frames) (state.goTo phase' frames') := by
  apply leads_of_step?
  simp [State.step?, h, State.make]

theorem leads_fail {error : Error} (h : move? theory.lookup phase frames = some (.fail error)) :
    theory.Leads (state.goTo phase frames) (state.fail error) := by
  apply leads_of_step?
  simp [State.step?, h, State.make, State.fail]

/-- A firing that the budget covers is made. -/
theorem leads_fire {result : Term} {count : Nat}
    (h : move? theory.lookup phase frames = some (.fire specification result))
    (covers : state.budget.Covers (count + 1)) :
    theory.Leads (state.goTo phase frames)
      ((state.spend 1).goTo (.root specification result true) frames) := by
  apply leads_of_step?
  have hcharge := Budget.charge_of_covers covers specification.name
  simp [State.step?, h, State.make, hcharge, State.spend, State.goTo]

theorem leads_again {term : Term} (h : move? theory.lookup phase frames = some (.again term))
    (hstart : state.start = specification) :
    theory.Leads (state.goTo phase frames)
      ({ state with passes := state.passes + 1 }.goTo (.root specification term false) []) := by
  apply leads_of_step?
  simp [State.step?, h, State.make, State.goTo, hstart]

/-- Without a limit a firing that is due is made. -/
theorem leads_of_fire {result : Term} (hlimit : state.budget.limit = none)
    (h : move? theory.lookup state.phase state.frames = some (.fire specification result)) :
    ∃ next, theory.Leads state next ∧ next.budget = state.budget.spend 1 := by
  have hcovers : state.budget.Covers (0 + 1) := by simp [Budget.Covers, hlimit]
  exact ⟨_, leads_fire h hcovers, rfl⟩

/-- When the limit is reached, a firing that is due ends the run. -/
theorem leads_refused {result : Term} {limit : Nat} (hlimit : state.budget.limit = some limit)
    (hreached : limit ≤ state.budget.used)
    (h : move? theory.lookup state.phase state.frames = some (.fire specification result)) :
    theory.Leads state
      (state.fail (.rewrite (.stepLimitExceeded specification.name limit))) := by
  have hcharge := Budget.charge_of_reached hlimit hreached specification.name
  apply leads_of_step?
  simp [State.step?, h, State.make, hcharge]

/-- A pass begins over the next argument, under the specification of its sort. -/
theorem leads_argument {argument : Term}
    (hlookup : theory.lookup argument.sort = .ok specification) (state : State)
    (operation sort : String) (before after : List Term) (changed : Bool) (frames : List Frame) :
    theory.Leads
      (state.goTo (.arguments operation sort before (argument :: after) changed) frames)
      (state.goTo (.root specification argument false)
        (.argument operation sort before after changed :: frames)) := by
  apply leads_next
  simp [move?, hlookup]

end moves

/-! ## Roots -/

/-- A theory keeps every specification under its own name. -/
theorem lookup_name {sort : String} {owner : Specification}
    (h : theory.lookup sort = .ok owner) : owner.name = sort :=
  lookup?_name (lookup_eq_ok_iff.mp h)

/-- The owner of a term is of the term's sort. -/
theorem owner_name {term : Term} {owner : Specification}
    (h : theory.owner specification term = .ok owner) : term.sort = owner.name := by
  unfold Theory.owner at h
  by_cases hsort : term.sort = specification.name
  · rw [if_pos hsort, Except.ok.injEq] at h
    rw [← h]
    exact hsort
  · rw [if_neg hsort] at h
    exact (lookup_name h).symm

/-- The pass gets to the owner of its term, at once or by handing the term over.
    Then a pass waits that has fired a rule if the one at hand had. -/
theorem leads_owner {term : Term} {owner : Specification}
    (h : theory.owner specification term = .ok owner) (state : State) (changed : Bool)
    (frames : List Frame) :
    ∃ (earlier : Bool) (waiting : List Bool), (earlier || waiting.any id) = changed ∧
      theory.Leads (state.goTo (.root specification term changed) frames)
        (state.goTo (.root owner term earlier) (waiting.map Frame.handed ++ frames)) := by
  unfold Theory.owner at h
  by_cases hsort : term.sort = specification.name
  · rw [if_pos hsort, Except.ok.injEq] at h
    rw [← h]
    exact ⟨changed, [], by simp, Leads.refl _⟩
  · rw [if_neg hsort] at h
    refine ⟨false, [changed], by simp, leads_next ?_⟩
    simp [move?, hsort, h]

/-- Passes that wait for one another end one after the other. -/
theorem leads_handed (state : State) (term : Term) (changed : Bool) (waiting : List Bool)
    (frames : List Frame) :
    theory.Leads (state.goTo (.passed term changed) (waiting.map Frame.handed ++ frames))
      (state.goTo (.passed term (changed || waiting.any id)) frames) := by
  induction waiting generalizing changed with
  | nil =>
    simp only [List.map_nil, List.nil_append, List.any_nil, Bool.or_false]
    exact Leads.refl _
  | cons earlier waiting ih =>
    have hfirst : theory.Leads
        (state.goTo (.passed term changed)
          (.handed earlier :: (waiting.map Frame.handed ++ frames)))
        (state.goTo (.passed term (earlier || changed)) (waiting.map Frame.handed ++ frames)) :=
      leads_next rfl
    have hrest := ih (earlier || changed)
    have hflag : (changed || (earlier :: waiting).any id) =
        ((earlier || changed) || waiting.any id) := by
      cases changed <;> cases earlier <;> rfl
    rw [hflag]
    exact hfirst.trans hrest

/-! ## What a run comes to -/

/-- How a machine stands when a run stops before it has a result. An exhausted
    run has nothing left, and the machine is about to fire. -/
def StopsAt (theory : Theory) (state : State) (left : Nat) : Stop → Prop
  | .failed error => state.phase = .ended (.error error)
  | .exhausted sort => left = 0 ∧ ∃ owner next,
      move? theory.lookup state.phase state.frames = some (.fire owner next) ∧ owner.name = sort

/-- From `state` the machine gets where the run, which was given `n` firings,
    comes to: to the phase `goal` of its result if it has one. -/
def Meets {α : Type} (theory : Theory) (state : State) (n : Nat) (run : Run α)
    (goal : α → Phase) (frames : List Frame) : Prop :=
  match run.outcome with
  | .ok result => theory.Leads state ((state.spend (n - run.left)).goTo (goal result) frames)
  | .error reason => ∃ final, theory.Leads state final ∧ final.passes = state.passes ∧
      final.budget = state.budget.spend (n - run.left) ∧ theory.StopsAt final run.left reason

section meets

variable {α β : Type} {n : Nat} {run : Run α} {goal : α → Phase} {frames : List Frame}

/-- What comes before counts too. -/
theorem Meets.after (state : State) {j m : Nat} {phase : Phase} {frames' : List Frame}
    (h : theory.Meets ((state.spend j).goTo phase frames') m run goal frames)
    (before : theory.Leads state ((state.spend j).goTo phase frames'))
    (hle : run.left ≤ m) (hn : n = j + m) : theory.Meets state n run goal frames := by
  have hcharge : j + (m - run.left) = n - run.left := by omega
  unfold Meets at h ⊢
  cases hrun : run.outcome with
  | ok result =>
    simp only [hrun, State.goTo_spend, State.spend_spend, State.goTo_goTo, hcharge] at h ⊢
    exact before.trans h
  | error reason =>
    simp only [hrun, State.goTo_passes, State.goTo_budget, State.spend_passes,
      State.spend_budget, Budget.spend_spend, hcharge] at h ⊢
    obtain ⟨final, hfinal, hrest⟩ := h
    exact ⟨final, before.trans hfinal, hrest⟩

/-- From the result the machine may go on without a firing. -/
theorem Meets.map {state : State} {f : α → β} {goal' : β → Phase} {frames' : List Frame}
    (h : theory.Meets state n run goal frames)
    (behind : ∀ (state : State) result, run.outcome = .ok result →
      theory.Leads (state.goTo (goal result) frames) (state.goTo (goal' (f result)) frames')) :
    theory.Meets state n ⟨run.outcome.map f, run.left⟩ goal' frames' := by
  unfold Meets at h ⊢
  cases hrun : run.outcome with
  | ok result =>
    simp only [hrun, Except.map] at h ⊢
    exact h.trans (behind _ result hrun)
  | error reason =>
    simp only [hrun, Except.map] at h ⊢
    exact h

/-- An error that comes up without a firing. -/
theorem meets_failed {state : State} {phase : Phase} {frames' : List Frame} {error : Error}
    (h : move? theory.lookup phase frames' = some (.fail error)) :
    theory.Meets (state.goTo phase frames') n (⟨.error (.failed error), n⟩ : Run α) goal
      frames := by
  unfold Meets
  refine ⟨_, leads_fail h, rfl, ?_, rfl⟩
  simp [State.fail]

end meets

/-! ## Passes -/

/-- The machine settles a root. Behind it wait the passes that have handed the
    term over, and one of them has fired a rule if the run was charged. -/
theorem settle_meets (theory : Theory) (n : Nat) (specification : Specification) (term : Term)
    (state : State) (changed : Bool) (frames : List Frame) (covers : state.budget.Covers n) :
    ∃ (owner : Specification) (earlier : Bool) (waiting : List Bool),
      theory.Meets (state.goTo (.root specification term changed) frames) n
        (theory.settle n specification term) (.root owner · earlier)
        (waiting.map Frame.handed ++ frames) ∧
      ∀ result, (theory.settle n specification term).outcome = .ok result →
        result.sort = owner.name ∧ owner.step? result = .ok none ∧
        (earlier || waiting.any id) =
          (changed || decide ((theory.settle n specification term).left < n)) := by
  fun_induction settle theory n specification term generalizing state changed frames with
  | case1 n specification term error howner =>
    refine ⟨specification, changed, [], meets_failed ?_, by simp⟩
    unfold Theory.owner at howner
    by_cases hsort : term.sort = specification.name
    · simp [hsort] at howner
    · rw [if_neg hsort] at howner
      simp [move?, hsort, howner]
  | case2 n specification term owner howner error hstep =>
    have hname := owner_name howner
    obtain ⟨earlier, waiting, _, hleads⟩ := leads_owner howner state changed frames
    refine ⟨owner, earlier, waiting, ?_, by simp⟩
    have hfail : theory.Meets
        (state.goTo (.root owner term earlier) (waiting.map Frame.handed ++ frames)) n
        ⟨.error (.failed (.rewrite error)), n⟩ (.root owner · earlier)
        (waiting.map Frame.handed ++ frames) := meets_failed (by simp [move?, hname, hstep])
    exact hfail.after _ (j := 0) hleads (Nat.le_refl n) (by omega)
  | case3 n specification term owner howner hstep =>
    have hname := owner_name howner
    obtain ⟨earlier, waiting, hchanged, hleads⟩ := leads_owner howner state changed frames
    refine ⟨owner, earlier, waiting, ?_, ?_⟩
    · simpa [Meets] using hleads
    · intro result h
      cases h
      exact ⟨hname, hstep, by simpa using hchanged⟩
  | case4 specification term owner howner next hstep =>
    -- nothing is left, and a rule matches
    have hname := owner_name howner
    obtain ⟨earlier, waiting, _, hleads⟩ := leads_owner howner state changed frames
    refine ⟨owner, earlier, waiting, ?_, by simp⟩
    unfold Meets
    refine ⟨_, hleads, rfl, rfl, rfl, owner, next, ?_, rfl⟩
    simp [move?, hname, hstep]
  | case5 specification term owner howner next hstep m ih =>
    have hname := owner_name howner
    obtain ⟨earlier, waiting, hchanged, hleads⟩ := leads_owner howner state changed frames
    have hfire : theory.Leads
        (state.goTo (.root owner term earlier) (waiting.map Frame.handed ++ frames))
        ((state.spend 1).goTo (.root owner next true) (waiting.map Frame.handed ++ frames)) :=
      leads_fire (by simp [move?, hname, hstep]) covers
    have hcovers : (state.spend 1).budget.Covers m := covers.spend
    obtain ⟨last, earlier', waiting', hmeets, hlast⟩ :=
      ih (state.spend 1) true (waiting.map Frame.handed ++ frames) hcovers
    have hle := theory.settle_left_le m owner next
    refine ⟨last, earlier', waiting' ++ waiting, ?_, ?_⟩
    · rw [List.map_append, List.append_assoc]
      exact hmeets.after (state.goTo (.root specification term changed) frames)
        (hleads.trans hfire) hle (Nat.add_comm m 1)
    · intro result h
      obtain ⟨hsort, hstable, hflag⟩ := hlast result h
      refine ⟨hsort, hstable, ?_⟩
      have hcharged : (theory.settle m owner next).left < m + 1 := by omega
      rw [List.any_append, ← Bool.or_assoc, hflag]
      simp [hcharged]

/-- Of two runs, one after the other, one fired a rule if there is less left behind
    both than before. -/
theorem decide_lt_of_le {l m n : Nat} (hl : l ≤ m) (hm : m ≤ n) :
    (decide (m < n) || decide (l < m)) = decide (l < n) := by
  have hlt : l < n ↔ m < n ∨ l < m := by omega
  simp [hlt]

/-- From the root of a term the machine gets where the run comes to, and tells
    whether a rule was fired. -/
def MeetsRoot (theory : Theory) (n : Nat) (specification : Specification) (term : Term)
    (run : Run Term) : Prop :=
  ∀ (state : State) changed frames, state.budget.Covers n →
    theory.Meets (state.goTo (.root specification term changed) frames) n run
      (.passed · (changed || decide (run.left < n))) frames

/-- The same from the last arguments of an application. -/
def MeetsArguments (theory : Theory) (n : Nat) (terms : List Term) (run : Run (List Term)) : Prop :=
  ∀ (state : State) operation sort before changed frames, state.budget.Covers n →
    theory.Meets (state.goTo (.arguments operation sort before terms changed) frames) n run
      (fun results => .passed (.app operation sort (before ++ results))
        (changed || decide (run.left < n))) frames

/-- The machine makes the passes. -/
theorem pass_meets (theory : Theory) :
    (∀ n specification term,
      theory.MeetsRoot n specification term (theory.pass n specification term)) ∧
    (∀ n terms, theory.MeetsArguments n terms (theory.passAll n terms)) := by
  apply @pass_induct theory theory.MeetsRoot theory.MeetsArguments
  case stopped =>
    intro n specification term reason hroot state changed frames covers
    obtain ⟨owner, earlier, waiting, hmeets, _⟩ :=
      theory.settle_meets n specification term state changed frames covers
    simpa only [Meets, hroot] using hmeets
  case var =>
    intro n specification term name sort hroot state changed frames covers
    obtain ⟨owner, earlier, waiting, hmeets, hsettled⟩ :=
      theory.settle_meets n specification term state changed frames covers
    obtain ⟨hsort, hstable, hflag⟩ := hsettled _ hroot
    unfold Meets at hmeets ⊢
    simp only [hroot] at hmeets ⊢
    have hmove : move? theory.lookup (.root owner (.var name sort) earlier)
        (waiting.map Frame.handed ++ frames) =
          some (.next (.passed (.var name sort) earlier) (waiting.map Frame.handed ++ frames)) := by
      simp [move?, hsort, hstable]
    rw [← hflag]
    exact (hmeets.trans (leads_next hmove)).trans (leads_handed _ _ _ _ _)
  case app =>
    intro n specification term operation sort arguments inner hroot hle ih state changed frames
      covers
    obtain ⟨owner, earlier, waiting, hmeets, hsettled⟩ :=
      theory.settle_meets n specification term state changed frames covers
    obtain ⟨hsort, hstable, hflag⟩ := hsettled _ hroot
    have hsettledLe := theory.settle_left_le n specification term
    unfold Meets at hmeets
    simp only [hroot] at hmeets
    -- the firings that are left for the arguments
    generalize (theory.settle n specification term).left = m at hmeets hflag hsettledLe hle ih
    have hmove : move? theory.lookup (.root owner (.app operation sort arguments) earlier)
        (waiting.map Frame.handed ++ frames) =
          some (.next (.arguments operation sort [] arguments earlier)
            (waiting.map Frame.handed ++ frames)) := by
      simp [move?, hsort, hstable]
    have hcovers : (state.spend (n - m)).budget.Covers m := covers.rest hsettledLe
    have hinner := ih (state.spend (n - m)) operation sort [] earlier
      (waiting.map Frame.handed ++ frames) hcovers
    have hwhole := hinner.after (n := n) (state.goTo (.root specification term changed) frames)
      (hmeets.trans (leads_next hmove)) hle (by omega)
    refine hwhole.map ?_
    -- the passes that handed the term over end too
    intro state' results _
    have hhanded : theory.Leads _ _ := leads_handed state' (.app operation sort results)
      (earlier || decide (inner.left < m)) waiting frames
    have hflags : (earlier || decide (inner.left < m) || waiting.any id) =
        (changed || decide (inner.left < n)) := by
      calc (earlier || decide (inner.left < m) || waiting.any id)
          = (earlier || waiting.any id || decide (inner.left < m)) := Bool.or_right_comm _ _ _
        _ = (changed || decide (m < n) || decide (inner.left < m)) := by rw [hflag]
        _ = (changed || decide (inner.left < n)) := by
            rw [Bool.or_assoc, decide_lt_of_le hle hsettledLe]
    rw [hflags] at hhanded
    exact hhanded
  case nil =>
    intro n state operation sort before changed frames _
    have hend : theory.Leads (state.goTo (.arguments operation sort before [] changed) frames)
        (state.goTo (.passed (.app operation sort before) changed) frames) := leads_next rfl
    unfold Meets
    simpa using hend
  case undefined =>
    intro n term rest error hlookup state operation sort before changed frames _
    exact meets_failed (by simp [move?, hlookup])
  case head =>
    intro n term rest specification reason left hlookup ih state operation sort before changed
      frames covers
    have hhead := ih state false (.argument operation sort before rest changed :: frames) covers
    unfold Meets at hhead ⊢
    obtain ⟨final, hfinal, hrest⟩ := hhead
    have hbegin := leads_argument hlookup state operation sort before rest changed frames
    exact ⟨final, hbegin.trans hfinal, hrest⟩
  case cons =>
    intro n term rest specification result left tail hlookup hleft htail ihHead ihTail state
      operation sort before changed frames covers
    have hbegin := leads_argument hlookup state operation sort before rest changed frames
    have hhead := ihHead state false (.argument operation sort before rest changed :: frames) covers
    unfold Meets at hhead
    simp only [Bool.false_or] at hhead
    have hreturn : theory.Leads
        ((state.spend (n - left)).goTo (.passed result (decide (left < n)))
          (.argument operation sort before rest changed :: frames))
        ((state.spend (n - left)).goTo (.arguments operation sort (before ++ [result]) rest
          (changed || decide (left < n))) frames) := leads_next rfl
    have hcovers : (state.spend (n - left)).budget.Covers left := covers.rest hleft
    have hothers := ihTail (state.spend (n - left)) operation sort (before ++ [result])
      (changed || decide (left < n)) frames hcovers
    have hwhole := hothers.after (n := n)
      (state.goTo (.arguments operation sort before (term :: rest) changed) frames)
      ((hbegin.trans hhead).trans hreturn) htail (by omega)
    refine hwhole.map ?_
    intro state' results _
    rw [Bool.or_assoc, decide_lt_of_le htail hleft, List.append_assoc, List.singleton_append]
    exact Leads.refl _

/-! ## The loop of passes -/

theorem normalizeWithin_left_le (theory : Theory) (specification : Specification) (n : Nat)
    (term : Term) : (theory.normalizeWithin specification n term).left ≤ n := by
  fun_induction normalizeWithin theory specification n term with
  | case1 n term first reason hfirst => exact theory.pass_left_le n specification term
  | case2 n term first next hfirst hless ih => omega
  | case3 n term first next hfirst hnot => exact theory.pass_left_le n specification term

/-- How a machine stands that has done what a run does. -/
def EndsAt (theory : Theory) (state : State) (run : Run Term) : Prop :=
  match run.outcome with
  | .ok result => state.phase = .ended (.ok result)
  | .error reason => theory.StopsAt state run.left reason

/-- The machine makes one pass after the other. All but the last have fired a
    rule, so there are no more of them than firings. -/
theorem normalizeWithin_leads (theory : Theory) (specification : Specification) (n : Nat)
    (term : Term) (state : State) (hstart : state.start = specification)
    (covers : state.budget.Covers n) :
    ∃ final, theory.Leads (state.goTo (.root specification term false) []) final ∧
      final.passes ≤ state.passes + (n - (theory.normalizeWithin specification n term).left) ∧
      final.budget =
        state.budget.spend (n - (theory.normalizeWithin specification n term).left) ∧
      theory.EndsAt final (theory.normalizeWithin specification n term) := by
  have hpass := fun n term (state : State) =>
    (pass_meets theory).1 n specification term state false []
  fun_induction normalizeWithin theory specification n term generalizing state with
  | case1 n term first reason hfirst =>
    have hmeets := hpass n term state covers
    unfold Meets at hmeets
    have hreason : (theory.pass n specification term).outcome = .error reason := hfirst
    simp only [hreason] at hmeets
    obtain ⟨final, hleads, hpasses, hbudget, hstops⟩ := hmeets
    refine ⟨final, hleads, ?_, hbudget, hstops⟩
    rw [hpasses]
    exact Nat.le_add_right _ _
  | case2 n term first next hfirst hless ih =>
    have hmeets := hpass n term state covers
    unfold Meets at hmeets
    have hnext : (theory.pass n specification term).outcome = .ok next := hfirst
    have hcharged : first.left < n := hless
    have hflag : (false || decide ((theory.pass n specification term).left < n)) = true := by
      simpa using hcharged
    simp only [hnext, hflag, State.goTo_spend, State.goTo_goTo] at hmeets
    -- the pass has fired a rule, so the next one begins
    have hagain : theory.Leads ((state.spend (n - first.left)).goTo (.passed next true) []) _ :=
      leads_again rfl hstart
    have hcovers : (state.spend (n - first.left)).budget.Covers first.left :=
      covers.rest (Nat.le_of_lt hcharged)
    obtain ⟨final, hleads, hpasses, hbudget, hends⟩ :=
      ih { state.spend (n - first.left) with passes := state.passes + 1 } hstart hcovers
    have hle := theory.normalizeWithin_left_le specification first.left next
    refine ⟨final, (hmeets.trans hagain).trans hleads, ?_, ?_, hends⟩
    · simp only at hpasses
      omega
    · simp only [State.spend_budget, Budget.spend_spend] at hbudget
      rw [hbudget]
      congr 1
      omega
  | case3 n term first last hfirst hnot =>
    have hmeets := hpass n term state covers
    unfold Meets at hmeets
    have hlast : (theory.pass n specification term).outcome = .ok last := hfirst
    have hle := theory.pass_left_le n specification term
    have hfree : (theory.pass n specification term).left = n := by
      have hnot' : ¬ (theory.pass n specification term).left < n := hnot
      omega
    have hflag : (false || decide ((theory.pass n specification term).left < n)) = false := by
      simp [hfree]
    simp only [hlast, hflag, State.goTo_spend, State.goTo_goTo] at hmeets
    have hend : theory.Leads ((state.spend (n - first.left)).goTo (.passed last false) [])
        ((state.spend (n - first.left)).goTo (.ended (.ok last)) []) := leads_next rfl
    exact ⟨_, hmeets.trans hend, Nat.le_add_right _ _, rfl, rfl⟩

/-! ## Normalization -/

/-- The machine gets to the outcome of a normalization, and with it to the same
    budget. When the fuel of a normalization without limit is used up, the
    machine is about to fire once more. -/
theorem normalize_leads (theory : Theory) (fuel : Nat) (budget : Budget)
    (specification : Specification) (term : Term) :
    ∃ final, theory.Leads (.begin specification term budget) final ∧
      final.budget = (theory.normalize fuel budget specification term).2 ∧
      final.passes ≤ 1 + (final.budget.used - budget.used) ∧
      ((∃ outcome : Except Error Term,
          (theory.normalize fuel budget specification term).1 = outcome.mapError .failed ∧
          final.phase = .ended outcome) ∨
        (∃ sort, (theory.normalize fuel budget specification term).1 = .error (.exhausted sort) ∧
          budget.limit = none ∧ final.budget = budget.spend fuel ∧
          ∃ owner next, move? theory.lookup final.phase final.frames =
            some (.fire owner next))) := by
  obtain ⟨final, hleads, hpasses, hbudget, hends⟩ :=
    theory.normalizeWithin_leads specification (budget.allowance fuel) term
      (.begin specification term budget) rfl (budget.covers_allowance fuel)
  have hused : final.budget.used - budget.used = budget.allowance fuel -
      (theory.normalizeWithin specification (budget.allowance fuel) term).left := by
    rw [hbudget]
    exact Nat.add_sub_cancel_left _ _
  have hpasses' : final.passes ≤ 1 + (final.budget.used - budget.used) := by
    rw [hused]
    exact hpasses
  unfold EndsAt at hends
  unfold normalize
  dsimp only
  cases hrun : (theory.normalizeWithin specification (budget.allowance fuel) term).outcome with
  | ok result =>
    simp only [hrun] at hends
    exact ⟨final, hleads, hbudget, hpasses', .inl ⟨.ok result, rfl, hends⟩⟩
  | error reason =>
    cases reason with
    | failed error =>
      simp only [hrun, StopsAt] at hends
      exact ⟨final, hleads, hbudget, hpasses', .inl ⟨.error error, rfl, hends⟩⟩
    | exhausted sort =>
      simp only [hrun, StopsAt] at hends
      obtain ⟨hleft, owner, next, hmove, hname⟩ := hends
      rcases Option.eq_none_or_eq_some budget.limit with hlimit | ⟨limit, hlimit⟩
      · have hspent : final.budget = budget.spend fuel := by
          rw [hbudget, hleft]
          simp [Budget.allowance, hlimit, State.begin]
        refine ⟨final, hleads, hbudget, hpasses',
          .inr ⟨sort, ?_, hlimit, hspent, owner, next, hmove⟩⟩
        simp [mapError_error, Budget.explain, hlimit]
      · -- the limit is reached, so the firing is refused
        have hreached : limit ≤ final.budget.used := by
          rw [hbudget, hleft]
          show limit ≤ budget.used + (budget.allowance fuel - 0)
          simp only [Budget.allowance, hlimit]
          omega
        have hlimit' : final.budget.limit = some limit := by
          rw [hbudget]
          exact hlimit
        have hrefused := leads_refused hlimit' hreached hmove
        refine ⟨_, hleads.trans hrefused, hbudget, hpasses',
          .inl ⟨.error (.rewrite (.stepLimitExceeded owner.name limit)), ?_, rfl⟩⟩
        simp [mapError_error, Budget.explain, hlimit, hname]

end Theory

end Equational
