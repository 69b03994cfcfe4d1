import Mathlib.Data.List.Forall2
import Mathlib.Tactic.Common

/-! How results that may be failures pass through binding and mapping. -/
namespace Formulas.Result

variable {ε ε' α β : Type}

@[simp] theorem ok_bind (a : α) (next : α → Except ε β) : (Except.ok a >>= next) = next a := rfl

@[simp] theorem error_bind (e : ε) (next : α → Except ε β) :
    ((Except.error e : Except ε α) >>= next) = .error e := rfl

@[simp] theorem map_ok (f : α → β) (a : α) : (Except.ok a : Except ε α).map f = .ok (f a) := rfl

@[simp] theorem map_error (f : α → β) (e : ε) :
    (Except.error e : Except ε α).map f = .error e := rfl

@[simp] theorem mapError_ok (f : ε → ε') (a : α) :
    (Except.ok a : Except ε α).mapError f = .ok a := rfl

@[simp] theorem mapError_error (f : ε → ε') (e : ε) :
    (Except.error e : Except ε α).mapError f = .error (f e) := rfl

/-- Mapping values and mapping failures do not disturb each other. -/
theorem mapError_map (f : ε → ε') (g : α → β) (result : Except ε α) :
    (result.map g).mapError f = (result.mapError f).map g := by
  cases result <;> rfl

theorem map_eq_ok {f : α → β} {result : Except ε α} {b : β} :
    result.map f = .ok b ↔ ∃ a, result = .ok a ∧ f a = b := by
  cases result <;> simp

theorem mapError_eq_ok {f : ε → ε'} {result : Except ε α} {a : α} :
    result.mapError f = .ok a ↔ result = .ok a := by
  cases result <;> simp

theorem map_eq_error {f : α → β} {result : Except ε α} {e : ε} :
    result.map f = .error e ↔ result = .error e := by
  cases result <;> simp

theorem mapError_eq_error {f : ε → ε'} {result : Except ε α} {e' : ε'} :
    result.mapError f = .error e' ↔ ∃ e, result = .error e ∧ f e = e' := by
  cases result <;> simp

/-- A bind succeeds through a first success. -/
theorem bind_eq_ok {result : Except ε α} {next : α → Except ε β} {b : β} :
    (result >>= next) = .ok b ↔ ∃ a, result = .ok a ∧ next a = .ok b := by
  cases result with
  | error e => simp
  | ok a => simp

/-- A bind fails at the first or behind it. -/
theorem bind_eq_error {result : Except ε α} {next : α → Except ε β} {e : ε} :
    (result >>= next) = .error e ↔
      result = .error e ∨ ∃ a, result = .ok a ∧ next a = .error e := by
  cases result with
  | error e' => simp
  | ok a => simp

/-- A guard that refuses lets a result through only where it does not apply. -/
theorem guard_eq_ok {refused : Prop} [Decidable refused] {e : ε} {result : Except ε α} {a : α} :
    (if refused then .error e else result) = .ok a ↔ ¬ refused ∧ result = .ok a := by
  by_cases hRefused : refused <;> simp [hRefused]

/-- Behind a guard a failure is that of the guard or of the result. -/
theorem guard_eq_error {refused : Prop} [Decidable refused] {e e' : ε} {result : Except ε α} :
    (if refused then .error e else result) = .error e' ↔
      refused ∧ e = e' ∨ ¬ refused ∧ result = .error e' := by
  by_cases hRefused : refused <;> simp [hRefused]

/-- A list of results succeeds when all of them do. -/
theorem mapM_eq_ok {f : α → Except ε β} {as : List α} {bs : List β} :
    as.mapM f = .ok bs ↔ List.Forall₂ (fun a b => f a = .ok b) as bs := by
  induction as generalizing bs with
  | nil => cases bs <;> simp [pure, Except.pure]
  | cons a as ih =>
      rw [List.mapM_cons, bind_eq_ok]
      simp only [bind_eq_ok]
      constructor
      · rintro ⟨b, hFirst, rest, hRest, hList⟩
        obtain rfl : b :: rest = bs := Except.ok.inj hList
        exact .cons hFirst (ih.mp hRest)
      · rintro (_ | ⟨hFirst, hRest⟩)
        exact ⟨_, hFirst, _, ih.mpr hRest, rfl⟩

/-- Each of a list is related to something where the list is. -/
theorem exists_of_forall₂ {P : α → β → Prop} {as : List α} {bs : List β}
    (hRelated : List.Forall₂ P as bs) : ∀ a ∈ as, ∃ b, P a b := by
  induction hRelated with
  | nil => simp
  | cons hFirst _ ih => exact List.forall_mem_cons.mpr ⟨⟨_, hFirst⟩, ih⟩

/-- Where each two members are related through something, so are the lists. -/
theorem exists_between_of_forall₂ {γ : Type} {P : α → β → Prop} {Q : α → γ → Prop}
    {S : γ → β → Prop} {as : List α} {bs : List β} (hRelated : List.Forall₂ P as bs)
    (hEach : ∀ a ∈ as, ∀ b ∈ bs, P a b → ∃ c, Q a c ∧ S c b) :
    ∃ cs, List.Forall₂ Q as cs ∧ List.Forall₂ S cs bs := by
  induction hRelated with
  | nil => exact ⟨[], .nil, .nil⟩
  | cons hFirst _ ih =>
      obtain ⟨c, hLeft, hRight⟩ :=
        hEach _ (List.mem_cons_self ..) _ (List.mem_cons_self ..) hFirst
      obtain ⟨cs, hLefts, hRights⟩ := ih fun a ha b hb =>
        hEach a (List.mem_cons_of_mem _ ha) b (List.mem_cons_of_mem _ hb)
      exact ⟨c :: cs, .cons hLeft hLefts, .cons hRight hRights⟩

/-- A list of results succeeds with as many values, or fails like one of the results. -/
theorem mapM_id_cases (results : List (Except ε α)) :
    (∃ values, results.mapM id = .ok values ∧ values.length = results.length) ∨
      ∃ e, .error e ∈ results ∧ results.mapM id = .error e := by
  induction results with
  | nil => exact .inl ⟨[], rfl, rfl⟩
  | cons result rest ih =>
      rw [List.mapM_cons]
      cases result with
      | error e => exact .inr ⟨e, List.mem_cons_self .., rfl⟩
      | ok a =>
          rcases ih with ⟨values, hValues, hLength⟩ | ⟨e, hMem, hError⟩
          · exact .inl ⟨a :: values, by rw [id, ok_bind, hValues]; rfl, by simp [hLength]⟩
          · exact .inr ⟨e, List.mem_cons_of_mem _ hMem, by rw [id, ok_bind, hError]; rfl⟩

/-- Two results are related if both are values that are, or the same failure. -/
inductive AreRelated (related : α → β → Prop) : Except ε α → Except ε β → Prop where
  | ok {a : α} {b : β} (hRelated : related a b) : AreRelated related (.ok a) (.ok b)
  | error (e : ε) : AreRelated related (.error e) (.error e)

namespace AreRelated

variable {γ δ : Type} {related related' : α → β → Prop} {found : Except ε α}
  {expected : Except ε β}

theorem imp (hImp : ∀ a b, related a b → related' a b) (hFound : AreRelated related found expected) :
    AreRelated related' found expected := by
  cases hFound with
  | ok hRelated => exact .ok (hImp _ _ hRelated)
  | error e => exact .error e

theorem mapError (change : ε → ε') (hFound : AreRelated related found expected) :
    AreRelated related (found.mapError change) (expected.mapError change) := by
  cases hFound with
  | ok hRelated => exact .ok hRelated
  | error e => exact .error (change e)

protected theorem bind {last : γ → δ → Prop} {next : α → Except ε γ} {next' : β → Except ε δ}
    (hFound : AreRelated related found expected)
    (hNext : ∀ a b, related a b → AreRelated last (next a) (next' b)) :
    AreRelated last (found >>= next) (expected >>= next') := by
  cases hFound with
  | ok hRelated => exact hNext _ _ hRelated
  | error e => exact .error e

/-- Where each result for the members of a list is related to another, so are the results for the
list. -/
theorem mapM (cs : List γ) {find : γ → Except ε α} {expect : γ → Except ε β}
    (hEach : ∀ c, AreRelated related (find c) (expect c)) :
    AreRelated (List.Forall₂ related) (cs.mapM find) (cs.mapM expect) := by
  induction cs with
  | nil => exact .ok .nil
  | cons c cs ih =>
      rw [List.mapM_cons, List.mapM_cons]
      refine (hEach c).bind fun a b hFirst => ih.bind fun as bs hRest => ?_
      exact .ok (.cons hFirst hRest)

end AreRelated

end Formulas.Result
