import Havoc.Proofs.Quantity.Integer

/-! # What an attempt gives

    An endpoint reads its fields one after the other and stops at the first that is wrong.
    `Gives` says what holds of everything that such an attempt comes to, and `Resolves` which
    integers a field can come to: all of them are of 64 bits, and a number that is written out
    comes to itself. -/

namespace Havoc.Service

open Havoc.Draw Havoc.Http Havoc.Number

variable {α β : Type} {P : α → Prop} {a : Attempt α} {q : RawQuantity} {own : IntRange} {n : Int}

/-- Whatever an attempt gives has a property. -/
def Gives (a : Attempt α) (P : α → Prop) : Prop := Always a.run fun r => ∀ x, r = .ok x → P x

theorem Gives.return {x : α} (h : P x) : Gives (return x) P := by
  intro w y hy
  obtain rfl := Except.ok.inj hy
  exact h

theorem Gives.bind {f : α → Attempt β} {Q : β → Prop} (ha : Gives a P)
    (hf : ∀ x, P x → Gives (f x) Q) : Gives (a >>= f) Q := by
  show Always (a >>= f).run _
  rw [ExceptT.run_bind]
  refine Always.bind ha fun r hr => ?_
  cases r with
  | ok x => exact hf x (hr x rfl)
  | error e => exact .return fun x hx => nomatch hx

theorem Gives.mono {Q : α → Prop} (ha : Gives a P) (h : ∀ x, P x → Q x) : Gives a Q :=
  Always.mono ha fun _ hr x hx => h x (hr x hx)

/-- What comes first may give anything. -/
theorem gives_behind {f : α → Attempt β} {Q : β → Prop} (hf : ∀ x, Gives (f x) Q) :
    Gives (a >>= f) Q :=
  Gives.bind (fun _ _ _ => trivial) fun x _ => hf x

theorem gives_throw (e : Problem) (f : α → Attempt β) {Q : β → Prop} :
    Gives (throw e >>= f) Q := fun _ _ hx => nomatch hx

/-- The integers that a field can come to. -/
def Resolves (own : IntRange) (q : RawQuantity) (n : Int) : Prop :=
  ∃ w, ((integer own q).run w).1 = .ok n

theorem gives_integer : Gives (integer own q) (Resolves own q) := fun w _ hn => ⟨w, hn⟩

theorem Resolves.fits (h : Resolves own q n) (hown : FitsInt64 own.low ∧ FitsInt64 own.high) :
    FitsInt64 n := by
  obtain ⟨w, hw⟩ := h
  rw [integer, RawQuantity.int] at hw
  cases hq : (Quantity.ofRaw q : Except QuantityError (Quantity Int)) with
  | error e =>
      rw [hq] at hw
      cases hw
  | ok quantity =>
      rw [hq] at hw
      have hdrawn := Quantity.always_draw hown (Quantity.fits_ofRaw hq) w
      have heq : (quantity.draw own w).1 = n := Except.ok.inj hw
      exact heq ▸ hdrawn

/-- A field that writes an integer, as a number or as a text, comes to it. -/
theorem resolves_of_writes {m : Int} (h : Quantity.Writes q m) : Resolves own q n ↔ n = m := by
  have hread : ∀ w, (integer own q).run w = (.ok m, w) := fun w =>
    Quantity.integer_run_ok (Quantity.lawful_resolve.written m h)
  constructor
  · rintro ⟨w, hw⟩
    rw [hread w] at hw
    exact (Except.ok.inj hw).symm
  · rintro rfl
    exact ⟨⟨fun _ => 0, 0⟩, by rw [hread]⟩

/-- A number that is written out comes to itself. -/
theorem resolves_integer {m : Int} (h : FitsInt64 m) :
    Resolves own (.number (.integer m)) n ↔ n = m :=
  resolves_of_writes (.number h)

end Havoc.Service
