import Mathlib.Data.List.Forall2
import Mathlib.Data.Set.Lattice
import Mathlib.Logic.Relation
import Mathlib.Order.CompletePartialOrder
import MarkupRepair.Proofs.Storage.Footprint

/-!
# Scripts worked on at once

Several scripts share one host. At each turn one of them, whichever it may be, gets the answer to
its next request. This always comes to an end. On a store in memory, when no two scripts are about
the same path, a turn does not change what running the remaining scripts one after another would
give. Hence every order of turns ends with the values of the scripts run one after another, and
with the same store.
-/

namespace MarkupRepair

namespace Script

variable {α : Type}

/-- Scripts run one after another, with their values in order. -/
def oneByOne : List (Script α) → Script (List α)
  | [] => return []
  | script :: rest => do
      let value ← script
      let values ← oneByOne rest
      return value :: values

/-- One script is what another goes on with after an answer. -/
inductive GoesOn : Script α → Script α → Prop where
  | intro {r : Request} {next : r.Answer → Script α} (answer : r.Answer) :
      GoesOn (next answer) (.ask r next)

/-- A script gets only so many answers. -/
theorem acc_goesOn (script : Script α) : Acc GoesOn script := by
  induction script with
  | done value => exact ⟨_, fun _ h => nomatch h⟩
  | ask r next ih =>
      refine ⟨_, ?_⟩
      rintro _ ⟨answer⟩
      exact ih answer

/-- Among scripts worked on at once, one goes on after an answer. -/
inductive OneGoesOn : List (Script α) → List (Script α) → Prop where
  | head {script script' : Script α} {rest : List (Script α)} (h : GoesOn script' script) :
      OneGoesOn (script' :: rest) (script :: rest)
  | tail {script : Script α} {rest rest' : List (Script α)} (h : OneGoesOn rest' rest) :
      OneGoesOn (script :: rest') (script :: rest)

/-- Scripts worked on at once get only so many answers together. -/
theorem acc_oneGoesOn (scripts : List (Script α)) : Acc OneGoesOn scripts := by
  induction scripts with
  | nil => exact ⟨_, fun _ h => nomatch h⟩
  | cons script rest ih =>
      have hscript := acc_goesOn script
      induction hscript generalizing rest with
      | intro script _ ihscript =>
          induction ih with
          | intro rest hrest ihrest =>
              refine ⟨_, ?_⟩
              rintro _ (⟨hgoes⟩ | ⟨hgoes⟩)
              · exact ihscript _ hgoes _ ⟨rest, hrest⟩
              · exact ihrest _ hgoes

end Script

namespace Host

variable {σ α : Type} {host : Host σ}

/-- One of the scripts that share a host gets the answer to its next request. -/
inductive Turn (host : Host σ) : List (Script α) × σ → List (Script α) × σ → Prop where
  | intro (before : List (Script α)) {r : Request} {next : r.Answer → Script α}
      (after : List (Script α)) (s : σ) :
      Turn host (before ++ .ask r next :: after, s)
        (before ++ next (host.answer r s).1 :: after, (host.answer r s).2)

/-- However the turns are taken, they come to an end. -/
theorem acc_turn (start : List (Script α) × σ) :
    Acc (fun next now => host.Turn now next) start := by
  have hgoes : Subrelation (fun next now => host.Turn now next)
      (InvImage Script.OneGoesOn (Prod.fst : List (Script α) × σ → List (Script α))) := by
    rintro _ _ ⟨before, after, s⟩
    unfold InvImage
    induction before with
    | nil => exact .head ⟨_⟩
    | cons script before ih => exact .tail ih
  exact Subrelation.accessible hgoes (InvImage.accessible _ (Script.acc_oneGoesOn _))

/-- A turn of some scripts is a turn of more scripts. -/
theorem Turn.cons {now next : List (Script α) × σ} (h : host.Turn now next) (script : Script α) :
    host.Turn (script :: now.1, now.2) (script :: next.1, next.2) := by
  obtain ⟨before, after, s⟩ := h
  exact .intro (script :: before) after s

/-- No turn is left exactly when every script is done. -/
theorem forall_not_turn_iff {scripts : List (Script α)} {s : σ} :
    (∀ next, ¬ host.Turn (scripts, s) next) ↔
      ∃ values : List α, scripts = values.map Script.done := by
  constructor
  · intro h
    induction scripts with
    | nil => exact ⟨[], rfl⟩
    | cons script rest ih =>
        cases script with
        | done value =>
            obtain ⟨values, rfl⟩ := ih fun next hturn => h _ (hturn.cons _)
            exact ⟨value :: values, rfl⟩
        | ask r next => exact absurd (.intro [] rest s) (h _)
  · rintro ⟨values, rfl⟩ _ hturn
    generalize hnow : (values.map Script.done, s) = now at hturn
    obtain ⟨before, after, s⟩ := hturn
    have hmem : Script.ask _ _ ∈ values.map Script.done :=
      (Prod.mk.inj hnow).1 ▸ List.mem_append_right _ List.mem_cons_self
    obtain ⟨value, -, hvalue⟩ := List.mem_map.mp hmem
    cases hvalue

/-- Scripts that are done are run without any request. -/
theorem run_oneByOne_map_done (values : List α) (s : σ) :
    host.run (Script.oneByOne (values.map Script.done)) s = (values, s) := by
  induction values with
  | nil => rfl
  | cons value values ih =>
      rw [List.map_cons, Script.oneByOne, Script.done_bind, run_bind, ih]
      rfl

/-- A script may be taken to its end without a turn for any other. -/
theorem turns_run (host : Host σ) (before after : List (Script α)) (script : Script α) (s : σ) :
    Relation.ReflTransGen host.Turn (before ++ script :: after, s)
      (before ++ .done (host.run script s).1 :: after, (host.run script s).2) := by
  induction script generalizing s with
  | done value => exact .refl
  | ask r next ih => exact .head (.intro before after s) (ih _ _)

end Host

namespace Script

variable {α : Type} {own own' : Set Path} {wanted wanted' : α → Prop} {script : Script α}

theorem Within.mono (h : script.Within own wanted) (hown : own ⊆ own')
    (hwanted : ∀ value, wanted value → wanted' value) : script.Within own' wanted' := by
  induction script with
  | done value => exact hwanted value h
  | ask r next ih =>
      refine ⟨?_, fun answer => ih answer (h.2 answer)⟩
      have hr := h.1
      cases r with
      | copy source target => exact ⟨hown hr.1, hown hr.2⟩
      | now => trivial
      | _ => exact hown hr

/-- Every script is about paths of some kind. -/
theorem within_univ (script : Script α) : script.Within Set.univ fun _ => True := by
  induction script with
  | done value => trivial
  | ask r next ih =>
      refine ⟨?_, ih⟩
      cases r with
      | copy source target => exact ⟨trivial, trivial⟩
      | _ => trivial

/-- Scripts that are each about paths of their own. -/
structure Fenced (owns : List (Set Path)) (scripts : List (Script α)) : Prop where
  /-- No path belongs to two scripts. -/
  apart : owns.Pairwise Disjoint
  /-- No script is about any path but its own. -/
  within : List.Forall₂ (fun own script => script.Within own fun _ => True) owns scripts

variable {owns : List (Set Path)} {before after : List (Script α)} {r : Request}
  {next : r.Answer → Script α}

/-- A script keeps to its paths when it goes on. -/
theorem Fenced.goesOn (h : Fenced owns (before ++ .ask r next :: after)) (answer : r.Answer) :
    Fenced owns (before ++ next answer :: after) := by
  refine ⟨h.apart, ?_⟩
  have hwithin := h.within
  clear h
  induction before generalizing owns with
  | nil =>
      cases hwithin with
      | cons hscript hrest => exact .cons (hscript.2 answer) hrest
  | cons script before ih =>
      cases hwithin with
      | cons hscript hrest => exact .cons hscript (ih hrest)

/-- What a script asks about belongs to no script before it. -/
theorem Fenced.exists_own (h : Fenced owns (before ++ .ask r next :: after)) :
    ∃ own ∈ owns, r.Within own ∧ ∀ script ∈ before, script.Within ownᶜ fun _ => True := by
  obtain ⟨hapart, hwithin⟩ := h
  induction before generalizing owns with
  | nil =>
      cases hwithin with
      | cons hscript hrest =>
          exact ⟨_, List.mem_cons_self, hscript.1, List.forall_mem_nil _⟩
  | cons script before ih =>
      cases hwithin with
      | cons hscript hrest =>
          rw [List.pairwise_cons] at hapart
          obtain ⟨own, hown, hr, hbefore⟩ := ih hapart.2 hrest
          refine ⟨own, List.mem_cons_of_mem _ hown, hr, ?_⟩
          rw [List.forall_mem_cons]
          refine ⟨hscript.mono ?_ fun _ h => h, hbefore⟩
          exact Set.subset_compl_iff_disjoint_right.mpr (hapart.1 own hown)

end Script

namespace Memory

variable {α : Type} {m m' : Memory}

/-- On two stores that hold the same, a script ends alike. -/
theorem run_of_agreeOn_univ (script : Script α) (h : AgreeOn Set.univ m m') :
    (host.run script m).1 = (host.run script m').1 ∧
      AgreeOn Set.univ (host.run script m).2 (host.run script m').2 :=
  run_of_agreeOn script.within_univ h

/-- A request and a script that have no path in common may change places. -/
theorem run_answer_comm {r : Request} {script : Script α} {own : Set Path} (hr : r.Within own)
    (h : script.Within ownᶜ fun _ => True) (m : Memory) :
    (host.run script (answer r m).2).1 = (host.run script m).1 ∧
      (answer r (host.run script m).2).1 = (answer r m).1 ∧
      AgreeOn Set.univ (host.run script (answer r m).2).2 (answer r (host.run script m).2).2 := by
  obtain ⟨hvalue, hothers⟩ := run_of_agreeOn h (answer_agreeOn_compl hr m)
  have hown : ∀ m, AgreeOn own (host.run script m).2 m := by
    intro m
    have hout := run_agreeOn_compl h m
    rwa [compl_compl] at hout
  obtain ⟨hanswer, hsame⟩ := answer_of_agreeOn hr (hown m)
  refine ⟨hvalue, hanswer, ?_⟩
  intro path _
  by_cases hpath : path ∈ own
  · exact (hown _ path hpath).trans (hsame path hpath).symm
  · exact (hothers path hpath).trans (answer_agreeOn_compl hr _ path hpath).symm

/-- The answer to a request may be given before the scripts that come first are run, when they
have no path in common with it. -/
theorem run_oneByOne_goesOn {r : Request} {next : r.Answer → Script α} {own : Set Path}
    {before : List (Script α)} (after : List (Script α)) (hr : r.Within own)
    (hbefore : ∀ script ∈ before, script.Within ownᶜ fun _ => True) (m : Memory) :
    (host.run (Script.oneByOne (before ++ next (answer r m).1 :: after)) (answer r m).2).1 =
        (host.run (Script.oneByOne (before ++ .ask r next :: after)) m).1 ∧
      AgreeOn Set.univ
        (host.run (Script.oneByOne (before ++ next (answer r m).1 :: after)) (answer r m).2).2
        (host.run (Script.oneByOne (before ++ .ask r next :: after)) m).2 := by
  induction before generalizing m with
  | nil => exact ⟨rfl, .refl _⟩
  | cons script before ih =>
      rw [List.forall_mem_cons] at hbefore
      obtain ⟨hvalue, hanswer, hsame⟩ := run_answer_comm hr hbefore.1 m
      obtain ⟨hvalues, hstores⟩ := ih hbefore.2 (host.run script m).2
      rw [hanswer] at hvalues hstores
      obtain ⟨hvalues', hstores'⟩ := run_of_agreeOn_univ
        (Script.oneByOne (before ++ next (answer r m).1 :: after)) hsame
      simp only [List.cons_append, Script.oneByOne, Host.run_bind, Script.pure_eq_done,
        Host.run_done]
      exact ⟨by rw [hvalue, hvalues', hvalues], hstores'.trans hstores⟩

/-- The turns of scripts that have no path in common do not change what running what is left of
them one after another gives. -/
theorem run_oneByOne_of_turns {owns : List (Set Path)} {start reached : List (Script α) × Memory}
    (h : Script.Fenced owns start.1) (hturns : Relation.ReflTransGen host.Turn start reached) :
    (host.run (Script.oneByOne reached.1) reached.2).1 =
        (host.run (Script.oneByOne start.1) start.2).1 ∧
      AgreeOn Set.univ (host.run (Script.oneByOne reached.1) reached.2).2
        (host.run (Script.oneByOne start.1) start.2).2 := by
  induction hturns using Relation.ReflTransGen.head_induction_on with
  | refl => exact ⟨rfl, .refl _⟩
  | head hturn _ ih =>
      obtain ⟨before, after, m⟩ := hturn
      obtain ⟨own, -, hr, hbefore⟩ := h.exists_own
      obtain ⟨hvalues, hstores⟩ := run_oneByOne_goesOn after hr hbefore m
      obtain ⟨hvalues', hstores'⟩ := ih (h.goesOn _)
      exact ⟨hvalues'.trans hvalues, hstores'.trans hstores⟩

/-- Scripts that have no path in common end with the values that they have when they are run one
after another, and leave the same store, in whatever order they take their turns. -/
theorem eq_of_turns_ended {owns : List (Set Path)} {start reached : List (Script α) × Memory}
    (h : Script.Fenced owns start.1) (hturns : Relation.ReflTransGen host.Turn start reached)
    (hend : ∀ next, ¬ host.Turn reached next) :
    reached.1 = (host.run (Script.oneByOne start.1) start.2).1.map Script.done ∧
      ∀ path, reached.2.get? path = (host.run (Script.oneByOne start.1) start.2).2.get? path := by
  obtain ⟨scripts, m⟩ := reached
  obtain ⟨values, rfl⟩ := Host.forall_not_turn_iff.mp hend
  obtain ⟨hvalues, hstores⟩ := run_oneByOne_of_turns h hturns
  rw [Host.run_oneByOne_map_done] at hvalues hstores
  exact ⟨by rw [← hvalues], fun path => hstores path trivial⟩

end Memory

end MarkupRepair
