import Stepwise.Proofs.Engine.Limit

/-!
# One run leads another

A run of the source program is compared with a run of the target program.
If the source run ends, the target run ends in a related way; in a strict
comparison the source run also ends whenever the target run does. A lax
comparison says nothing about source runs that end in a spoiled way and may
allow the target machine to stop. The target is either a single run or a
family of runs with more and more fuel, of which only a later part may be
left to compare.
-/

namespace Stepwise.Simulation

open Engine

variable {α β γ δ : Type}

/-- How much a comparison forgives. -/
structure Terms where
  /-- Whether anything is forgiven. -/
  lax : Prop
  /-- Whether the target machine may stop, if anything is forgiven. -/
  stops : Prop
  /-- The early ends of the source that are forgiven. -/
  spoil : Unwind → Prop

/-- The ends of the source that are forgiven. -/
def Terms.Spoiled (t : Terms) (r : Except Unwind α) : Prop :=
  ∃ u, r = .error u ∧ t.spoil u

/-- Two outcomes are related, by value or as early ends. -/
def Related (Q : World → α → World → β → Prop) (E : World → Unwind → World → Unwind → Prop)
    (w : World) (r : Except Unwind α) (v : World) (r' : Except Unwind β) : Prop :=
  match r, r' with
  | .ok a, .ok b => Q w a v b
  | .error u, .error u' => E w u v u'
  | _, _ => False

/-- A property of outcomes, given for values and for early ends. -/
def byOutcome (ok : α → Prop) (early : Unwind → Prop) : Except Unwind α → Prop
  | .ok a => ok a
  | .error u => early u

/-- A single run of the target that the machine has stopped, as it may. -/
def Escapes (t : Terms) (y : Run β) : Prop := t.stops ∧ ∃ v, y = .done v (.error .cancelled)

/-- The source run `x` leads the target run `y`. -/
structure Mirrors (t : Terms) (x : Run α) (y : Run β) (Q : World → α → World → β → Prop)
    (E : World → Unwind → World → Unwind → Prop) : Prop where
  /-- An end of the source gives an end of the target. -/
  forth : ∀ {w r}, x = .done w r →
    (t.lax ∧ (t.Spoiled r ∨ Escapes t y)) ∨ ∃ v r', y = .done v r' ∧ Related Q E w r v r'
  /-- An end of the target gives an end of the source. -/
  back : ¬ t.lax → y.Ends → x.Ends

namespace Mirrors

variable {t : Terms} {x x' : Run α} {y y' : Run β} {Q Q' : World → α → World → β → Prop}
  {E E' : World → Unwind → World → Unwind → Prop}

/-- A weaker relation between the ends. -/
theorem mono (h : Mirrors t x y Q E) (hQ : ∀ w a v b, Q w a v b → Q' w a v b)
    (hE : ∀ w u v u', E w u v u' → E' w u v u') : Mirrors t x y Q' E' where
  forth := by
    intro w r hx
    refine (h.forth hx).imp id fun ⟨v, r', hy, hr⟩ => ⟨v, r', hy, ?_⟩
    cases r <;> cases r'
    · exact hE _ _ _ _ hr
    · exact hr
    · exact hr
    · exact hQ _ _ _ _ hr
  back := h.back

/-- More may be forgiven. -/
theorem forgive {t' : Terms} (h : Mirrors t x y Q E) (hlax : t'.lax ↔ t.lax)
    (hstops : t.stops → t'.stops) (hs : ∀ u, t.spoil u → t'.spoil u) : Mirrors t' x y Q E where
  forth := by
    intro w r hx
    refine (h.forth hx).imp (fun ⟨hl, hr⟩ => ⟨hlax.mpr hl, hr.imp ?_ (And.imp_left hstops)⟩) id
    rintro ⟨u, hu, hsu⟩
    exact ⟨u, hu, hs u hsu⟩
  back := fun hl => h.back fun hl' => hl (hlax.mpr hl')

/-- Both runs end with values. -/
theorem ok {w v : World} {a : α} {b : β} (h : Q w a v b) :
    Mirrors t (.done w (.ok a)) (.done v (.ok b)) Q E where
  forth := by
    intro w r hx
    cases hx
    exact .inr ⟨v, .ok b, rfl, h⟩
  back := fun _ _ => ⟨w, _, rfl⟩

/-- Both runs end early. -/
theorem error {w v : World} {u u' : Unwind} (h : E w u v u') :
    Mirrors t (.done w (.error u) : Run α) (.done v (.error u') : Run β) Q E where
  forth := by
    intro w r hx
    cases hx
    exact .inr ⟨v, .error u', rfl, h⟩
  back := fun _ _ => ⟨w, _, rfl⟩

/-- The source ends in a way that is forgiven. -/
theorem spoiled {w : World} {u : Unwind} (hlax : t.lax) (hu : t.spoil u) :
    Mirrors t (.done w (.error u) : Run α) y Q E where
  forth := by
    intro w r hx
    cases hx
    exact .inl ⟨hlax, .inl ⟨u, rfl, hu⟩⟩
  back := fun h => absurd hlax h

/-- Runs that end alike can take each other's place. -/
theorem congr (h : Mirrors t x y Q E) (hx : Run.Same x x') (hy : Run.Same y y') :
    Mirrors t x' y' Q E where
  forth := by
    intro w r h'
    obtain ⟨hlax, hs | ⟨hstops, v, hv⟩⟩ | ⟨v, r', hv, hr⟩ := h.forth ((hx w r).mpr h')
    · exact .inl ⟨hlax, .inl hs⟩
    · exact .inl ⟨hlax, .inr ⟨hstops, v, (hy _ _).mp hv⟩⟩
    · exact .inr ⟨v, r', (hy _ _).mp hv, hr⟩
  back := by
    intro hlax hends
    exact hx.ends_iff.mp (h.back hlax (hy.ends_iff.mpr hends))

/-- Going on with the values on both sides. -/
theorem bind {x : Exec α} {y : Exec β} {f : α → Exec γ} {g : β → Exec δ} {w v : World}
    {R : World → γ → World → δ → Prop} (h : Mirrors t (x w) (y v) Q E)
    (hf : ∀ w a v b, Q w a v b → Mirrors t (f a w) (g b v) R E) :
    Mirrors t ((x >>= f) w) ((y >>= g) v) R E where
  forth := by
    intro w' r hx
    obtain ⟨w₁, a, h₁, h₂⟩ | ⟨u, h₁, rfl⟩ := Exec.bind_eq_done.mp hx
    · obtain ⟨hlax, hs | ⟨hstops, v', hv⟩⟩ | ⟨v', r', hv, hr⟩ := h.forth h₁
      · obtain ⟨u, hu, -⟩ := hs
        cases hu
      · exact .inl ⟨hlax, .inr ⟨hstops, v', Exec.bind_of_error hv⟩⟩
      · cases r' with
        | error u' => cases hr
        | ok b =>
          rw [Exec.bind_of_ok hv]
          exact (hf w₁ a v' b hr).forth h₂
    · obtain ⟨hlax, ⟨u', hu, hs⟩ | ⟨hstops, v', hv⟩⟩ | ⟨v', r', hv, hr⟩ := h.forth h₁
      · cases hu
        exact .inl ⟨hlax, .inl ⟨u, rfl, hs⟩⟩
      · exact .inl ⟨hlax, .inr ⟨hstops, v', Exec.bind_of_error hv⟩⟩
      · cases r' with
        | error u' => exact .inr ⟨v', .error u', Exec.bind_of_error hv, hr⟩
        | ok b => cases hr
  back := by
    rintro hlax ⟨v', r', hy⟩
    have hy' : (y v).Ends := by
      obtain ⟨v₁, b, h₁, -⟩ | ⟨u, h₁, -⟩ := Exec.bind_eq_done.mp hy
      · exact ⟨v₁, _, h₁⟩
      · exact ⟨_, _, h₁⟩
    obtain ⟨w₁, r₁, hx⟩ := h.back hlax hy'
    cases r₁ with
    | error u => exact ⟨w₁, .error u, Exec.bind_of_error hx⟩
    | ok a =>
      obtain ⟨hl, -⟩ | ⟨v₁, r₂, hv, hr⟩ := h.forth hx
      · exact absurd hl hlax
      · cases r₂ with
        | error u' => cases hr
        | ok b =>
          rw [Exec.bind_of_ok hx]
          rw [Exec.bind_of_ok hv] at hy
          exact (hf w₁ a v₁ b hr).back hlax ⟨v', r', hy⟩

/-- Going on, however the first runs have ended. The target goes on from a stop
with a stop. -/
theorem andThen {k : World → Except Unwind α → Run γ} {k' : World → Except Unwind β → Run δ}
    {t' : Terms} {R : World → γ → World → δ → Prop} (h : Mirrors t x y Q E)
    (hterms : t'.lax ↔ t.lax) (hstops : t.stops → t'.stops)
    (hk : ∀ w r v r', Related Q E w r v r' → Mirrors t' (k w r) (k' v r') R E')
    (hspoil : t.lax → ∀ w u, t.spoil u → ∀ w' r, k w (.error u) = .done w' r → t'.Spoiled r)
    (hstop : ∀ v, ∃ v', k' v (.error .cancelled) = .done v' (.error .cancelled)) :
    Mirrors t' (x.andThen k) (y.andThen k') R E' where
  forth := by
    intro w' r hx
    obtain ⟨w₁, r₁, h₁, h₂⟩ := Run.andThen_eq_done.mp hx
    obtain ⟨hlax, ⟨u, rfl, hs⟩ | ⟨hs, v, hv⟩⟩ | ⟨v, r', hv, hr⟩ := h.forth h₁
    · exact .inl ⟨hterms.mpr hlax, .inl (hspoil hlax w₁ u hs w' r h₂)⟩
    · refine .inl ⟨hterms.mpr hlax, .inr ⟨hstops hs, ?_⟩⟩
      rw [hv]
      exact hstop v
    · rw [hv]
      exact (hk w₁ r₁ v r' hr).forth h₂
  back := by
    rintro hlax ⟨v', r', hy⟩
    have hlax' : ¬ t.lax := fun hl => hlax (hterms.mpr hl)
    obtain ⟨v₁, r₁, hv, hk'⟩ := Run.andThen_eq_done.mp hy
    obtain ⟨w₁, r₂, hx⟩ := h.back hlax' ⟨v₁, r₁, hv⟩
    obtain ⟨hl, -⟩ | ⟨v₂, r₃, hv₂, hr⟩ := h.forth hx
    · exact absurd hl hlax'
    · rw [hv] at hv₂
      cases hv₂
      obtain ⟨w', r, hk''⟩ := (hk w₁ r₂ v₁ r₁ hr).back hlax ⟨v', r', hk'⟩
      exact ⟨w', r, Run.andThen_eq_done.mpr ⟨w₁, r₂, hx, hk''⟩⟩

end Mirrors

/-- A family of runs has come to another one after `d` units of fuel. -/
structure Reaches (d : Nat) (Y Z : Nat → Run β) : Prop where
  /-- What is left is the other family. -/
  eq : ∀ n, Y (n + d) = Z n
  /-- With less fuel there is no end. -/
  lt : ∀ n, n < d → ¬ (Y n).Ends

namespace Reaches

variable {Y Z Z' : Nat → Run β} {d e : Nat}

/-- Nothing was done yet. -/
theorem refl (Y : Nat → Run β) : Reaches 0 Y Y :=
  ⟨fun _ => rfl, fun n h => absurd h (Nat.not_lt_zero n)⟩

/-- One way after the other. -/
theorem trans (h : Reaches d Y Z) (h' : Reaches e Z Z') : Reaches (e + d) Y Z' where
  eq := by
    intro n
    rw [← Nat.add_assoc, h.eq, h'.eq]
  lt := by
    intro n hn hends
    by_cases hd : n < d
    · exact h.lt n hd hends
    · obtain ⟨m, rfl⟩ : ∃ m, n = m + d := ⟨n - d, by omega⟩
      rw [h.eq] at hends
      exact h'.lt m (by omega) hends

/-- What ends later ends. -/
theorem ends {n : Nat} (h : Reaches d Y Z) (hends : (Y n).Ends) :
    ∃ m, n = m + d ∧ (Z m).Ends := by
  by_cases hd : n < d
  · exact absurd hends (h.lt n hd)
  · obtain ⟨m, rfl⟩ : ∃ m, n = m + d := ⟨n - d, by omega⟩
    rw [h.eq] at hends
    exact ⟨m, rfl, hends⟩

end Reaches

/-- A family of runs of the target of which one was stopped. -/
def EscapesLater (t : Terms) (Y : Nat → Run β) : Prop := ∃ n, Escapes t (Y n)

/-- A later stop is a stop. -/
theorem Reaches.escapes {t : Terms} {Y Z : Nat → Run β} {d : Nat} (h : Reaches d Y Z)
    (hz : EscapesLater t Z) : EscapesLater t Y := by
  obtain ⟨n, hstops, v, hn⟩ := hz
  exact ⟨n + d, hstops, v, by rw [h.eq, hn]⟩

/-- The source run `x` leads the target family `Y` to some later family. -/
structure Leads (t : Terms) (x : Run α) (Y : Nat → Run β)
    (Q : World → Except Unwind α → (Nat → Run β) → Prop) : Prop where
  /-- An end of the source says where the target comes to. -/
  forth : ∀ {w r}, x = .done w r →
    (t.lax ∧ (t.Spoiled r ∨ EscapesLater t Y)) ∨ ∃ d Z, Reaches d Y Z ∧ Q w r Z
  /-- An end of the target gives an end of the source. -/
  back : ¬ t.lax → ∀ n, (Y n).Ends → x.Ends

namespace Leads

variable {t : Terms} {x x' : Run α} {Y Y' : Nat → Run β}
  {Q R : World → Except Unwind α → (Nat → Run β) → Prop}

/-- A weaker relation between source and target. -/
theorem mono (h : Leads t x Y Q) (hQ : ∀ w r Z, Q w r Z → R w r Z) : Leads t x Y R where
  forth := by
    intro w r hx
    exact (h.forth hx).imp id fun ⟨d, Z, hd, hq⟩ => ⟨d, Z, hd, hQ w r Z hq⟩
  back := h.back

/-- The relation may use how the source has ended. -/
theorem observe (h : Leads t x Y Q) : Leads t x Y fun w r Z => x = .done w r ∧ Q w r Z where
  forth := by
    intro w r hx
    exact (h.forth hx).imp id fun ⟨d, Z, hd, hq⟩ => ⟨d, Z, hd, hx, hq⟩
  back := h.back

/-- More may be forgiven. -/
theorem forgive {t' : Terms} (h : Leads t x Y Q) (hlax : t'.lax ↔ t.lax)
    (hstops : t.stops → t'.stops) (hs : ∀ u, t.spoil u → t'.spoil u) : Leads t' x Y Q where
  forth := by
    intro w r hx
    refine (h.forth hx).imp (fun ⟨hl, hr⟩ => ⟨hlax.mpr hl, hr.imp ?_ (.imp fun _ => ?_)⟩) id
    · rintro ⟨u, hu, hsu⟩
      exact ⟨u, hu, hs u hsu⟩
    · exact And.imp_left hstops
  back := fun hl => h.back fun hl' => hl (hlax.mpr hl')

/-- Source runs that end alike can take each other's place. -/
theorem congr (h : Leads t x Y Q) (hx : Run.Same x x') : Leads t x' Y Q where
  forth := fun {w r} h' => h.forth ((hx w r).mpr h')
  back := fun hlax n hends => hx.ends_iff.mp (h.back hlax n hends)

/-- The target may have some way to go first. -/
theorem after {d : Nat} (hd : Reaches d Y Y') (h : Leads t x Y' Q) : Leads t x Y Q where
  forth := by
    intro w r hx
    obtain ⟨hlax, hs | hz⟩ | ⟨e, Z, he, hq⟩ := h.forth hx
    · exact .inl ⟨hlax, .inl hs⟩
    · exact .inl ⟨hlax, .inr (hd.escapes hz)⟩
    · exact .inr ⟨e + d, Z, hd.trans he, hq⟩
  back := by
    intro hlax n hends
    obtain ⟨m, -, hm⟩ := hd.ends hends
    exact h.back hlax m hm

/-- The target may go on further after the source has ended. -/
theorem thenReaches (h : Leads t x Y Q)
    (hQ : ∀ w r Z, Q w r Z → ∃ d Z', Reaches d Z Z' ∧ R w r Z') : Leads t x Y R where
  forth := by
    intro w r hx
    refine (h.forth hx).imp id ?_
    rintro ⟨d, Z, hd, hq⟩
    obtain ⟨e, Z', he, hr⟩ := hQ w r Z hq
    exact ⟨e + d, Z', hd.trans he, hr⟩
  back := h.back

/-- A source run that has ended leaves the target where it is. -/
theorem done {w : World} {r : Except Unwind α} (h : Q w r Y) : Leads t (.done w r) Y Q where
  forth := by
    intro w r hx
    cases hx
    exact .inr ⟨0, Y, .refl Y, h⟩
  back := fun _ _ _ => ⟨w, r, rfl⟩

/-- Going on with the value of the source. -/
theorem bind {x : Exec α} {f : α → Exec γ} {w : World}
    {R : World → Except Unwind γ → (Nat → Run β) → Prop} (h : Leads t (x w) Y Q)
    (hf : ∀ w a Z, Q w (.ok a) Z → Leads t (f a w) Z R)
    (herr : ∀ w u Z, Q w (.error u) Z → R w (.error u) Z) : Leads t ((x >>= f) w) Y R where
  forth := by
    intro w' r hx
    obtain ⟨w₁, a, h₁, h₂⟩ | ⟨u, h₁, rfl⟩ := Exec.bind_eq_done.mp hx
    · obtain ⟨hlax, ⟨u, hu, -⟩ | hz⟩ | ⟨d, Z, hd, hq⟩ := h.forth h₁
      · cases hu
      · exact .inl ⟨hlax, .inr hz⟩
      · exact ((hf w₁ a Z hq).after hd).forth h₂
    · obtain ⟨hlax, ⟨u', hu, hs⟩ | hz⟩ | ⟨d, Z, hd, hq⟩ := h.forth h₁
      · cases hu
        exact .inl ⟨hlax, .inl ⟨u, rfl, hs⟩⟩
      · exact .inl ⟨hlax, .inr hz⟩
      · exact .inr ⟨d, Z, hd, herr w' u Z hq⟩
  back := by
    intro hlax n hends
    obtain ⟨w₁, r₁, hx⟩ := h.back hlax n hends
    cases r₁ with
    | error u => exact ⟨w₁, .error u, Exec.bind_of_error hx⟩
    | ok a =>
      obtain ⟨hl, -⟩ | ⟨d, Z, hd, hq⟩ := h.forth hx
      · exact absurd hl hlax
      · rw [Exec.bind_of_ok hx]
        obtain ⟨m, -, hm⟩ := hd.ends hends
        exact (hf w₁ a Z hq).back hlax m hm

/-- Going on, however the source has ended. -/
theorem andThen {k : World → Except Unwind α → Run γ} {t' : Terms}
    {R : World → Except Unwind γ → (Nat → Run β) → Prop} (h : Leads t x Y Q)
    (hterms : t'.lax ↔ t.lax) (hstops : t.stops → t'.stops)
    (hk : ∀ w r Z, Q w r Z → Leads t' (k w r) Z R)
    (hspoil : t.lax → ∀ w u, t.spoil u → ∀ w' r, k w (.error u) = .done w' r → t'.Spoiled r) :
    Leads t' (x.andThen k) Y R where
  forth := by
    intro w' r hx
    obtain ⟨w₁, r₁, h₁, h₂⟩ := Run.andThen_eq_done.mp hx
    obtain ⟨hlax, ⟨u, rfl, hs⟩ | ⟨n, hs, hz⟩⟩ | ⟨d, Z, hd, hq⟩ := h.forth h₁
    · exact .inl ⟨hterms.mpr hlax, .inl (hspoil hlax w₁ u hs w' r h₂)⟩
    · exact .inl ⟨hterms.mpr hlax, .inr ⟨n, hstops hs, hz⟩⟩
    · exact ((hk w₁ r₁ Z hq).after hd).forth h₂
  back := by
    intro hlax n hends
    have hlax' : ¬ t.lax := fun hl => hlax (hterms.mpr hl)
    obtain ⟨w₁, r₁, hx⟩ := h.back hlax' n hends
    obtain ⟨hl, -⟩ | ⟨d, Z, hd, hq⟩ := h.forth hx
    · exact absurd hl hlax'
    · obtain ⟨m, -, hm⟩ := hd.ends hends
      obtain ⟨w', r, hk'⟩ := (hk w₁ r₁ Z hq).back hlax m hm
      exact ⟨w', r, Run.andThen_eq_done.mpr ⟨w₁, r₁, hx, hk'⟩⟩

/-- A family that is led to an end has a limit that is led there. -/
theorem toMirrors {y : Run β} {P : World → α → World → β → Prop}
    {E : World → Unwind → World → Unwind → Prop} (h : Leads t x Y Q) (hy : Run.Tends Y y)
    (hQ : ∀ w r Z, Q w r Z → ∃ n v r', Z n = .done v r' ∧ Related P E w r v r') :
    Mirrors t x y P E where
  forth := by
    intro w r hx
    obtain ⟨hlax, hs | ⟨n, hstops, v, hv⟩⟩ | ⟨d, Z, hd, hq⟩ := h.forth hx
    · exact .inl ⟨hlax, .inl hs⟩
    · exact .inl ⟨hlax, .inr ⟨hstops, v, hy.limit.mpr ⟨n, hv⟩⟩⟩
    · obtain ⟨n, v, r', hz, hr⟩ := hQ w r Z hq
      exact .inr ⟨v, r', hy.limit.mpr ⟨n + d, by rw [hd.eq, hz]⟩, hr⟩
  back := by
    rintro hlax ⟨v, r, hv⟩
    obtain ⟨n, hn⟩ := hy.limit.mp hv
    exact h.back hlax n ⟨v, r, hn⟩

/-- Where a round of a loop leads the target: back to the invariant, by some
way at least, or to the end. -/
def Round (I : World → (Nat → Run β) → Prop)
    (R : World → Except Unwind γ → (Nat → Run β) → Prop) (w : World)
    (r : Except Unwind (Unit ⊕ γ)) (Z : Nat → Run β) : Prop :=
  match r with
  | .ok (.inl _) => ∃ d Z', 0 < d ∧ Reaches d Z Z' ∧ I w Z'
  | .ok (.inr flow) => R w (.ok flow) Z
  | .error u => R w (.error u) Z

/-- A loop of the source leads the target if each round does. -/
theorem iterate {step : Unit → Exec (Unit ⊕ γ)} {loop : Exec γ}
    (hloop : Exec.Tends (fun n => Exec.iterate step n ()) loop)
    (I : World → (Nat → Run β) → Prop) {R : World → Except Unwind γ → (Nat → Run β) → Prop}
    (hround : ∀ w Y, I w Y → Leads t (step () w) Y (Round I R))
    {w : World} (hI : I w Y) : Leads t (loop w) Y R where
  forth := by
    intro w' r hx
    obtain ⟨n, hn⟩ := (hloop w).limit.mp hx
    clear hx
    -- The rounds that are left bound the induction; the target may be anywhere.
    induction n generalizing w Y with
    | zero => simp [Exec.iterate] at hn
    | succ n ih =>
      obtain ⟨w₁, next, h₁, h₂⟩ | ⟨u, h₁, rfl⟩ := Exec.bind_eq_done.mp hn
      · obtain ⟨hlax, ⟨u, hu, -⟩ | hz⟩ | ⟨d, Z, hd, hq⟩ := (hround w Y hI).forth h₁
        · cases hu
        · exact .inl ⟨hlax, .inr hz⟩
        · cases next with
          | inr flow =>
            cases h₂
            exact .inr ⟨d, Z, hd, hq⟩
          | inl _ =>
            obtain ⟨e, Z', -, he, hI'⟩ := hq
            obtain ⟨hlax, hs | hz⟩ | ⟨d', Z'', hd', hr⟩ := ih hI' h₂
            · exact .inl ⟨hlax, .inl hs⟩
            · exact .inl ⟨hlax, .inr ((hd.trans he).escapes hz)⟩
            · exact .inr ⟨_, Z'', (hd.trans he).trans hd', hr⟩
      · obtain ⟨hlax, ⟨u', hu, hs⟩ | hz⟩ | ⟨d, Z, hd, hq⟩ := (hround w Y hI).forth h₁
        · cases hu
          exact .inl ⟨hlax, .inl ⟨u, rfl, hs⟩⟩
        · exact .inl ⟨hlax, .inr hz⟩
        · exact .inr ⟨d, Z, hd, hq⟩
  back := by
    intro hlax n
    -- Every round uses up fuel of the target, so the fuel bounds the rounds.
    induction n using Nat.strongRecOn generalizing w Y with
    | ind n ih =>
      intro hends
      obtain ⟨w₁, r₁, hx⟩ := (hround w Y hI).back hlax n hends
      obtain ⟨hl, -⟩ | ⟨d, Z, hd, hq⟩ := (hround w Y hI).forth hx
      · exact absurd hl hlax
      · rcases r₁ with u | _ | flow
        · refine ⟨w₁, .error u, (hloop w).limit.mpr ⟨1, ?_⟩⟩
          exact Exec.bind_of_error hx
        · obtain ⟨e, Z', he0, he, hI'⟩ := hq
          obtain ⟨m, rfl, hm⟩ := (hd.trans he).ends hends
          obtain ⟨w', r, hw⟩ := ih m (by omega) hI' hm
          obtain ⟨k, hk⟩ := (hloop w₁).limit.mp hw
          refine ⟨w', r, (hloop w).limit.mpr ⟨k + 1, ?_⟩⟩
          exact (Exec.bind_of_ok hx).trans hk
        · refine ⟨w₁, .ok flow, (hloop w).limit.mpr ⟨1, ?_⟩⟩
          exact Exec.bind_of_ok hx

end Leads

section Routes

variable (N : Machine)

/-- The way of the target machine through the rest of a block. -/
noncomputable def route (block rest : List Stmt) (v : World) : Nat → Run Flow :=
  fun n => N.path block false n rest v

/-- The way on of the target machine after a statement. -/
noncomputable def land (block rest : List Stmt) (flow : Flow) (v : World) : Nat → Run Flow :=
  fun n => Exec.goOn (N.path block false n) (follow block rest flow) v

/-- The way has come to an early end. -/
def halted (v : World) (u : Unwind) : Nat → Run Flow := fun _ => .done v (.error u)

variable {N} {block rest : List Stmt} {v v' : World}

/-- A way through a block begins with its first statement. -/
theorem route_cons (stmt : Stmt) :
    Reaches 1 (route N block (stmt :: rest) v) fun n =>
      (N.step N.callees false stmt v).andThen fun v r =>
        match r with
        | .ok flow => land N block rest flow v n
        | .error u => .done v (.error u) where
  eq := by
    intro n
    show (Exec.bind (Exec.bind _ _) _) v = _
    unfold Exec.bind
    rw [Run.andThen_assoc]
    congr 1
    funext v r
    cases r <;> rfl
  lt := by
    rintro n hn ⟨v', r, h⟩
    obtain rfl : n = 0 := by omega
    cases h

/-- A statement that is over leads on. -/
theorem route_step {stmt : Stmt} {flow : Flow}
    (h : N.step N.callees false stmt v = .done v' (.ok flow)) :
    Reaches 1 (route N block (stmt :: rest) v) (land N block rest flow v') := by
  have hcons : Reaches 1 (route N block (stmt :: rest) v) _ := route_cons stmt
  rw [h] at hcons
  exact hcons

/-- The way on after a jump to a label of the block. -/
theorem land_jump {label : String} {rest' : List Stmt}
    (h : Block.fromLabel? label block = some rest') :
    land N block rest (.jump label) v = route N block rest' v := by
  funext n
  simp only [land, follow, h]
  rfl

/-- The way on after a jump to a label outside the block. -/
theorem land_leave {label : String} (h : Block.fromLabel? label block = none) (n : Nat) :
    land N block rest (.jump label) v n = .done v (.ok (.jump label)) := by
  simp only [land, follow, h]
  rfl

end Routes

end Stepwise.Simulation
