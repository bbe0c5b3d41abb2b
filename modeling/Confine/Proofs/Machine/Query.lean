import Confine.Machine.Request
import Mathlib.Data.List.Basic

/-!
# What a computation may ask, and what it may come to

* `Query.All A P q` — whatever the answers are, `q` makes requests of `A` only and comes to something of `P`;
* `Query.Rel R q q'` — given the same answers, `q` and `q'` make the same requests and come to things that `R`
  relates;
* `Agree R x y` — the same for computations that may fail and ask nothing.

The first two are carried over to the answers of a host with a state (`Query.All.answered`, `Query.Rel.answered`).
-/

namespace Confine

/-- Two computations fail with the same error, or come to related values. -/
inductive Agree {ε α β : Type} (R : α → β → Prop) : Except ε α → Except ε β → Prop where
  | ok {a : α} {b : β} (h : R a b) : Agree R (.ok a) (.ok b)
  | error (e : ε) : Agree R (.error e) (.error e)

theorem Agree.refl {ε α : Type} {R : α → α → Prop} (h : ∀ a, R a a) : ∀ x : Except ε α, Agree R x x
  | .ok a => .ok (h a)
  | .error e => .error e

theorem Agree.imp_ok {ε α β : Type} {R S : α → β → Prop} {x : Except ε α} {y : Except ε β}
    (h : Agree R x y) (hi : ∀ a b, x = .ok a → y = .ok b → R a b → S a b) : Agree S x y := by
  cases h with
  | ok h => exact .ok (hi _ _ rfl rfl h)
  | error e => exact .error e

theorem Agree.imp {ε α β : Type} {R S : α → β → Prop} {x : Except ε α} {y : Except ε β}
    (h : Agree R x y) (hi : ∀ a b, x = .ok a → R a b → S a b) : Agree S x y :=
  h.imp_ok fun a b ha _ => hi a b ha

theorem Agree.exists_ok {ε α β : Type} {R : α → β → Prop} {x : Except ε α} {b : β} (h : Agree R x (.ok b)) :
    ∃ a, x = .ok a ∧ R a b := by
  cases h with
  | ok h => exact ⟨_, rfl, h⟩

namespace Query

variable {α β γ δ : Type}

/-- Whatever the host answers, the computation makes requests of `A` only, and what it comes to is
in `P`. -/
inductive All (A : HostRequest → Prop) (P : α → Prop) : Query α → Prop where
  | done {a : α} (h : P a) : All A P (.done a)
  | ask {r : HostRequest} {resume : r.Answer → Query α} (hr : A r)
      (h : ∀ a, All A P (resume a)) : All A P (.ask r resume)

/-- Given the same answers, two computations make the same requests and come to related ends. -/
inductive Rel (R : α → β → Prop) : Query α → Query β → Prop where
  | done {a : α} {b : β} (h : R a b) : Rel R (.done a) (.done b)
  | ask {r : HostRequest} {k : r.Answer → Query α} {k' : r.Answer → Query β}
      (h : ∀ a, Rel R (k a) (k' a)) : Rel R (.ask r k) (.ask r k')

/-- What a computation may come to, with some answers. -/
inductive MayCome : Query α → α → Prop where
  | done (a : α) : MayCome (.done a) a
  | ask {r : HostRequest} {resume : r.Answer → Query α} {b : α} (a : r.Answer)
      (h : MayCome (resume a) b) : MayCome (.ask r resume) b

section All

variable {A : HostRequest → Prop} {P : α → Prop} {Q : β → Prop} {q : Query α}

theorem All.of_mayCome {a : α} (h : All A P q) (ha : MayCome q a) : P a := by
  induction ha with
  | done a =>
    cases h with
    | done h => exact h
  | ask a _ ih =>
    cases h with
    | ask _ h => exact ih (h a)

theorem All.map {f : α → β} (h : All A P q) (hf : ∀ a, P a → Q (f a)) : All A Q (q.map f) := by
  induction h with
  | done ha => exact .done (hf _ ha)
  | ask hr _ ih => exact .ask hr ih

end All

theorem map_map (q : Query α) (f : α → β) (g : β → γ) :
    (q.map f).map g = q.map fun a => g (f a) := by
  induction q with
  | done a => rfl
  | ask r resume ih => exact congrArg (ask r) (funext ih)

theorem MayCome.map {q : Query α} {a : α} (h : MayCome q a) (f : α → β) :
    MayCome (q.map f) (f a) := by
  induction h with
  | done a => exact .done (f a)
  | ask a _ ih => exact .ask a ih

theorem mayCome_done_iff {a b : α} : (done a).MayCome b ↔ b = a := by
  constructor
  · rintro ⟨⟩
    rfl
  · rintro rfl
    exact .done b

theorem mayCome_map_iff {q : Query α} {f : α → β} {b : β} :
    (q.map f).MayCome b ↔ ∃ a, q.MayCome a ∧ b = f a := by
  constructor
  · intro h
    induction q with
    | done a => exact ⟨a, .done a, mayCome_done_iff.1 h⟩
    | ask r resume ih =>
      obtain _ | ⟨x, h⟩ := h
      obtain ⟨a, ha, rfl⟩ := ih x h
      exact ⟨a, .ask x ha, rfl⟩
  · rintro ⟨a, ha, rfl⟩
    exact ha.map f

theorem Rel.imp {R S : α → β → Prop} {q : Query α} {q' : Query β} (h : Rel R q q')
    (hi : ∀ a b, R a b → S a b) : Rel S q q' := by
  induction h with
  | done hab => exact .done (hi _ _ hab)
  | ask _ ih => exact .ask ih

theorem Rel.map {R : α → β → Prop} {S : γ → δ → Prop} {q : Query α} {q' : Query β} {f : α → γ}
    {g : β → δ} (h : Rel R q q') (hfg : ∀ a b, R a b → S (f a) (g b)) :
    Rel S (q.map f) (q'.map g) := by
  induction h with
  | done hab => exact .done (hfg _ _ hab)
  | ask _ ih => exact .ask ih

/-! ### Hosts with a state -/

section Answered

variable {σ : Type} {A : HostRequest → Prop} {P : α → Prop} {q : Query α}

@[simp] theorem answered_done (answer : (r : HostRequest) → StateM σ r.Answer) (a : α) (w : σ) :
    (done a).answered answer w = (a, w) := rfl

@[simp] theorem answered_ask (answer : (r : HostRequest) → StateM σ r.Answer) (r : HostRequest)
    (resume : r.Answer → Query α) (w : σ) :
    (ask r resume).answered answer w =
      (resume (answer r w).1).answered answer (answer r w).2 := rfl

theorem answered_map (answer : (r : HostRequest) → StateM σ r.Answer) (f : α → β) (q : Query α)
    (w : σ) : (q.map f).answered answer w =
      (f (q.answered answer w).1, (q.answered answer w).2) := by
  induction q generalizing w with
  | done a => rfl
  | ask r resume ih => exact ih _ _

theorem mayCome_answered (answer : (r : HostRequest) → StateM σ r.Answer) (q : Query α) (w : σ) :
    MayCome q (q.answered answer w).1 := by
  induction q generalizing w with
  | done a => exact .done a
  | ask r resume ih => exact .ask _ (ih _ _)

theorem All.answered (h : All A P q) (answer : (r : HostRequest) → StateM σ r.Answer) (w : σ) :
    P (q.answered answer w).1 := by
  induction h generalizing w with
  | done ha => exact ha
  | ask _ _ ih => exact ih _ _

theorem Rel.answered {R : α → β → Prop} {q : Query α} {q' : Query β} (h : Rel R q q')
    (answer : (r : HostRequest) → StateM σ r.Answer) (w : σ) :
    R (q.answered answer w).1 (q'.answered answer w).1 ∧
      (q.answered answer w).2 = (q'.answered answer w).2 := by
  induction h generalizing w with
  | done hab => exact ⟨hab, rfl⟩
  | ask _ ih => exact ih _ _

end Answered

end Query

end Confine
