/-
  RuleExpr.Proofs.Outcome — promises about the outcome of an evaluation.

  `Outcome.Meets P Q` promises `P` of the value or `Q` of the error, whichever there is. What
  each step of an evaluation promises carries over to its steps in sequence (`Meets.bind`) and
  to a list of them (`meets_mapM`). Mostly one of the two halves is of interest: `Gives P` says
  nothing about errors, `FailsBy Q` nothing about values.
-/

import RuleExpr.Error

namespace RuleExpr.Outcome

variable {α β : Type} {P : α → Prop} {R : β → Prop} {Q : Error → Prop}

def Meets (P : α → Prop) (Q : Error → Prop) : Outcome α → Prop
  | .ok v => P v
  | .error e => Q e

abbrev Gives (P : α → Prop) : Outcome α → Prop := Meets P fun _ => True

abbrev FailsBy (Q : Error → Prop) : Outcome α → Prop := Meets (fun _ => True) Q

theorem ok_bind (a : α) (f : α → Outcome β) : (Except.ok a : Outcome α) >>= f = f a := rfl

theorem bind_eq_ok {o : Outcome α} {f : α → Outcome β} {b : β} :
    o >>= f = .ok b ↔ ∃ a, o = .ok a ∧ f a = .ok b := by
  cases o with
  | ok a => exact ⟨fun h => ⟨a, rfl, h⟩, fun ⟨_, ha, hb⟩ => Except.ok.inj ha ▸ hb⟩
  | error e => exact ⟨nofun, fun ⟨_, ha, _⟩ => nomatch ha⟩

theorem Meets.value {o : Outcome α} (h : Meets P Q o) {v : α} (hv : o = .ok v) : P v := by
  subst hv
  exact h

theorem Meets.error {o : Outcome α} (h : Meets P Q o) {e : Error} (he : o = .error e) : Q e := by
  subst he
  exact h

theorem gives_of_forall (h : ∀ v, P v) (o : Outcome α) : Gives P o := by
  cases o with
  | ok v => exact h v
  | error e => trivial

theorem gives_true (o : Outcome α) : Gives (fun _ => True) o := gives_of_forall (fun _ => trivial) o

theorem Meets.imp {P₀ : α → Prop} {o : Outcome α} (ho : Meets P₀ Q o) (h : ∀ v, P₀ v → P v) : Meets P Q o := by
  cases o with
  | ok v => exact h v ho
  | error e => exact ho

theorem Meets.gives {P₀ : α → Prop} {o : Outcome α} (ho : Meets P₀ Q o) (h : ∀ v, P₀ v → P v) : Gives P o := by
  cases o with
  | ok v => exact h v ho
  | error e => trivial

theorem Meets.failsBy {o : Outcome α} (ho : Meets P Q o) : FailsBy Q o := ho.imp fun _ _ => trivial

theorem Meets.mono {Q' : Error → Prop} {o : Outcome α} (ho : Meets P Q o) (h : ∀ e, Q e → Q' e) : Meets P Q' o := by
  cases o with
  | ok v => exact ho
  | error e => exact h e ho

theorem Meets.bind {o : Outcome α} {f : α → Outcome β} (ho : Meets P Q o) (hf : ∀ v, P v → Meets R Q (f v)) :
    Meets R Q (o >>= f) := by
  cases o with
  | ok v => exact hf v ho
  | error e => exact ho

theorem Meets.map {o : Outcome α} {f : α → β} (ho : Meets P Q o) (hf : ∀ v, P v → R (f v)) :
    Meets R Q (o.map f) := by
  cases o with
  | ok v => exact hf v ho
  | error e => exact ho

theorem meets_mapM {l : List α} {f : α → Outcome β} (h : ∀ a ∈ l, Meets R Q (f a)) :
    Meets (fun vs => vs.length = l.length ∧ ∀ v ∈ vs, R v) Q (l.mapM f) := by
  induction l with
  | nil => exact ⟨rfl, nofun⟩
  | cons a l ih =>
    rw [List.mapM_cons]
    refine (h a List.mem_cons_self).bind fun b hb => ?_
    refine (ih fun x hx => h x (List.mem_cons_of_mem a hx)).bind fun bs hbs => ?_
    refine ⟨congrArg Nat.succ hbs.1, fun v hv => ?_⟩
    rcases List.mem_cons.mp hv with rfl | hv
    · exact hb
    · exact hbs.2 v hv

end RuleExpr.Outcome
