import CellCalculus.Proofs.CheckerGuarantees
import CellCalculus.Proofs.UnifierCompleteness

/-!
# Readings of the checker's state

A reading is a state of the checker together with values for its variables under which everything
recorded in it holds. A later reading has more variables and gives those of the earlier one the same
values, so a type read as `u` stays read as `u`. `Attains w Q` says of a computation that it
succeeds from the state of `w`, and that the state it leaves behind has a later reading which, with
the answer, has `Q`.
-/

namespace CellCalculus

open Check Substitution

/-- The variables of the type are among the first `n`. -/
def Ty.Below (n : Nat) (t : Ty) : Prop := ∀ x ∈ t.vars, x < n

/-- Values for the variables of a state that has no projection to settle. -/
structure Reading where
  state : Checker
  values : Substitution
  satisfies : values.Satisfies state
  within : state.subst.Within (List.range state.nextVar)
  fieldsBelow : ∀ p ∈ state.fields, p.ty.Below state.nextVar
  noProjections : state.projections = []

namespace Reading

/-- The state before the first step, without a variable to give a value to. -/
def start : Reading where
  state := {}
  values := .empty
  satisfies := ⟨fun _ => by rw [apply_empty, apply_empty], by simp, by simp⟩
  within := within_empty _
  fieldsBelow := by simp
  noProjections := rfl

/-- In this reading the type `t` of the checker stands for `u`. -/
structure Reads (w : Reading) (t u : Ty) : Prop where
  below : t.Below w.state.nextVar
  value : w.values.apply t = u

/-- The checker's environment has a type for each name in the other one and reads as that. -/
def ReadsEnv (w : Reading) (env env' : TypeEnv) : Prop :=
  ∀ x u, env'.lookup? x = some u → ∃ t, env.lookup? x = some t ∧ w.Reads t u

structure Extends (w' w : Reading) : Prop where
  counter : w.state.nextVar ≤ w'.state.nextVar
  agrees : ∀ x < w.state.nextVar, w'.values.apply (.var x) = w.values.apply (.var x)

variable {w w' w'' : Reading} {t u : Ty}

theorem Extends.refl (w : Reading) : w.Extends w := ⟨Nat.le_refl _, fun _ _ => rfl⟩

theorem Extends.trans (h' : w''.Extends w') (h : w'.Extends w) : w''.Extends w where
  counter := Nat.le_trans h.counter h'.counter
  agrees x hx := (h'.agrees x (Nat.lt_of_lt_of_le hx h.counter)).trans (h.agrees x hx)

theorem Extends.of_values (hcounter : w.state.nextVar ≤ w'.state.nextVar)
    (hvalues : w'.values = w.values) : w'.Extends w where
  counter := hcounter
  agrees _ _ := by rw [hvalues]

theorem Reads.mono (ht : w.Reads t u) (h : w'.Extends w) : w'.Reads t u where
  below x hx := Nat.lt_of_lt_of_le (ht.below x hx) h.counter
  value := (apply_congr fun x hx => h.agrees x (ht.below x hx)).trans ht.value

theorem ReadsEnv.mono {env env' : TypeEnv} (henv : w.ReadsEnv env env') (h : w'.Extends w) :
    w'.ReadsEnv env env' := by
  intro x u hx
  obtain ⟨t, ht, hread⟩ := henv x u hx
  exact ⟨t, ht, hread.mono h⟩

theorem ReadsEnv.extend {env env' : TypeEnv} (henv : w.ReadsEnv env env') (b : Binder)
    (ht : w.Reads t u) : w.ReadsEnv (env.extend b t) (env'.extend b u) := by
  intro x v hx
  rw [TypeEnv.lookup?_extend] at hx ⊢
  split at hx
  · next hb =>
    cases hx
    exact ⟨t, if_pos hb, ht⟩
  · next hb =>
    rw [if_neg hb]
    exact henv x v hx

theorem reads_ground (ht : t.vars = []) : w.Reads t t where
  below x hx := by rw [ht] at hx; cases hx
  value := apply_ground ht w.values

theorem Reads.arrow {a b a' b' : Ty} (ha : w.Reads a a') (hb : w.Reads b b') :
    w.Reads (.arrow a b) (.arrow a' b') where
  below := List.forall_mem_append.mpr ⟨ha.below, hb.below⟩
  value := by rw [apply, ha.value, hb.value]

theorem Reads.pair {tag : Tag} {a b a' b' : Ty} (ha : w.Reads a a') (hb : w.Reads b b') :
    w.Reads (.pair tag a b) (.pair tag a' b') where
  below := List.forall_mem_append.mpr ⟨ha.below, hb.below⟩
  value := by rw [apply, ha.value, hb.value]

theorem Reads.record {a b a' b' : Ty} (ha : w.Reads a a') (hb : w.Reads b b') :
    w.Reads (.record a b) (.record a' b') where
  below := List.forall_mem_append.mpr ⟨ha.below, hb.below⟩
  value := by rw [apply, ha.value, hb.value]

theorem Reads.ref (ht : w.Reads t u) : w.Reads (.ref t) (.ref u) where
  below := ht.below
  value := by rw [apply, ht.value]

theorem Reads.of_arrow {a b a' b' : Ty} (h : w.Reads (.arrow a b) (.arrow a' b')) :
    w.Reads a a' ∧ w.Reads b b' := by
  obtain ⟨ha, hb⟩ := List.forall_mem_append.mp h.below
  obtain ⟨hva, hvb⟩ := Ty.arrow.inj h.value
  exact ⟨⟨ha, hva⟩, ⟨hb, hvb⟩⟩

/-- A type that stands for a function is an arrow already or still a variable. -/
theorem Reads.arrow_or_var {a b : Ty} (h : w.Reads t (.arrow a b)) :
    (∃ param result, t = .arrow param result) ∨ ∃ x, t = .var x := by
  have hvalue := h.value
  cases t <;> simp_all [apply]

theorem resolve_below (w : Reading) (ht : t.Below w.state.nextVar) :
    (w.state.subst.apply t).Below w.state.nextVar := by
  intro x hx
  have ht' : ∀ y ∈ t.vars, y ∈ List.range w.state.nextVar :=
    fun y hy => List.mem_range.mpr (ht y hy)
  exact List.mem_range.mp (mem_of_mem_vars_apply w.within ht' hx)

theorem Reads.resolve (ht : w.Reads t u) : w.Reads (w.state.subst.apply t) u where
  below := w.resolve_below ht.below
  value := (w.satisfies.absorbs t).trans ht.value

theorem apply_insert_of_below {s : Substitution} {n : Nat} (u : Ty) (ht : t.Below n) :
    (s.insert n u).apply t = s.apply t := by
  refine apply_congr fun x hx => ?_
  have hxn : x ≠ n := Nat.ne_of_lt (ht x hx)
  simp only [apply, lookup?_insert, if_neg hxn]

theorem below_var {n x : Nat} (hx : x < n) : (Ty.var x).Below n := by
  simpa [Ty.Below, Ty.vars] using hx

/-- One more variable has been made up, and it stands for `u`. -/
def withFresh (w : Reading) (u : Ty) : Reading where
  state := { w.state with nextVar := w.state.nextVar + 1 }
  values := w.values.insert w.state.nextVar u
  satisfies :=
    { absorbs := by
        -- Nothing in the state mentions the new variable, so its value does not matter there.
        refine absorbs_of_vars fun x t hx => ?_
        obtain ⟨hxn, htn⟩ := w.within x t hx
        simp only [List.mem_range] at hxn htn
        rw [apply_insert_of_below u (below_var hxn), apply_insert_of_below u htn,
          ← w.satisfies.absorbs (.var x), apply_var_of_bound hx]
      fields := fun p hp => by
        rw [FieldPremise.HoldsIn, apply_insert_of_below u (w.fieldsBelow p hp)]
        exact w.satisfies.fields p hp
      projections := by simp [w.noProjections] }
  within := w.within.mono fun x hx => by
    rw [List.mem_range] at hx ⊢
    exact Nat.lt_succ_of_lt hx
  fieldsBelow p hp x hx := Nat.lt_succ_of_lt (w.fieldsBelow p hp x hx)
  noProjections := w.noProjections

theorem withFresh_extends (w : Reading) (u : Ty) : (w.withFresh u).Extends w where
  counter := Nat.le_succ _
  agrees _ hx := apply_insert_of_below u (below_var hx)

theorem withFresh_reads (w : Reading) (u : Ty) :
    (w.withFresh u).Reads (.var w.state.nextVar) u where
  below := below_var (Nat.lt_succ_self _)
  value := by
    change (w.values.insert w.state.nextVar u).apply (.var w.state.nextVar) = u
    simp [apply, lookup?_insert]

/-- The values absorb what has been found to make two types equal. -/
def withUnifier (w : Reading) {a b : Ty} {r : Substitution} (ha : a.Below w.state.nextVar)
    (hb : b.Below w.state.nextVar)
    (hr : unify (w.state.subst.apply a) (w.state.subst.apply b) = .ok r)
    (habs : w.values.Absorbs r) : Reading where
  state := { w.state with subst := r.compose w.state.subst }
  values := w.values
  satisfies := ⟨habs.compose w.satisfies.absorbs, w.satisfies.fields, w.satisfies.projections⟩
  within := by
    have hsides := List.forall_mem_append.mpr ⟨w.resolve_below ha, w.resolve_below hb⟩
    have hrwithin := (unify_sound hr).2.2.mono fun x hx => List.mem_range.mpr (hsides x hx)
    exact hrwithin.compose w.within
  fieldsBelow := w.fieldsBelow
  noProjections := w.noProjections

def withField (w : Reading) (p : FieldPremise) (hbelow : p.ty.Below w.state.nextVar)
    (hp : p.HoldsIn w.values) : Reading where
  state := { w.state with fields := w.state.fields ++ [p] }
  values := w.values
  satisfies :=
    { absorbs := w.satisfies.absorbs
      fields := List.forall_mem_append.mpr
        ⟨w.satisfies.fields, List.forall_mem_singleton.mpr hp⟩
      projections := w.satisfies.projections }
  within := w.within
  fieldsBelow := List.forall_mem_append.mpr ⟨w.fieldsBelow, List.forall_mem_singleton.mpr hbelow⟩
  noProjections := w.noProjections

end Reading

namespace Check

variable {α β : Type} {m : Check α} {w : Reading} {Q : α → Reading → Prop} {t u : Ty}

def Attains (m : Check α) (w : Reading) (Q : α → Reading → Prop) : Prop :=
  ∃ a w', m.Returns w.state a w'.state ∧ w'.Extends w ∧ Q a w'

theorem Attains.bind {f : α → Check β} {R : β → Reading → Prop} (hm : m.Attains w Q)
    (hf : ∀ a w', w'.Extends w → Q a w' → (f a).Attains w' R) : (m >>= f).Attains w R := by
  obtain ⟨a, w', hr, hext, hQ⟩ := hm
  obtain ⟨b, w'', hr', hext', hR⟩ := hf a w' hext hQ
  exact ⟨b, w'', returns_bind_iff.mpr ⟨a, w'.state, hr, hr'⟩, hext'.trans hext, hR⟩

theorem attains_pure {a : α} (hQ : Q a w) : (pure a : Check α).Attains w Q :=
  ⟨a, w, returns_pure_iff.mpr ⟨rfl, rfl⟩, .refl w, hQ⟩

theorem Attains.emit_bind (hm : m.Attains w Q) (ev : Event) :
    (emit ev >>= fun _ => m).Attains w Q := by
  obtain ⟨a, w', hr, hext, hQ⟩ := hm
  exact ⟨a, w', returns_bind_iff.mpr ⟨(), w.state, returns_emit_iff.mpr rfl, hr⟩, hext, hQ⟩

theorem attains_fresh (w : Reading) (u : Ty) : fresh.Attains w fun t w' => w'.Reads t u :=
  ⟨_, w.withFresh u, returns_fresh_iff.mpr ⟨rfl, rfl⟩, w.withFresh_extends u, w.withFresh_reads u⟩

theorem attains_resolve (ht : w.Reads t u) : (resolve t).Attains w fun t' w' => w'.Reads t' u :=
  ⟨_, w, returns_resolve_iff.mpr ⟨rfl, rfl⟩, .refl w, ht.resolve⟩

/-- Types that stand for the same are unified, and the values stay. -/
theorem attains_unifyAt {site : Expr} {a b : Ty} (ha : w.Reads a u) (hb : w.Reads b u) :
    (unifyAt site a b).Attains w fun _ _ => True := by
  have hsame : w.values.apply (w.state.subst.apply a) =
      w.values.apply (w.state.subst.apply b) := by
    rw [ha.resolve.value, hb.resolve.value]
  obtain ⟨r, hr, habs⟩ := unify_complete hsame
  exact ⟨(), w.withUnifier ha.below hb.below hr habs, returns_unifyAt_iff.mpr ⟨r, hr, rfl⟩,
    .of_values (Nat.le_refl _) rfl, trivial⟩

/-- The answer on a type agrees with the one on what it stands for, or is open. -/
theorem attains_requireField {site : Expr} {tag : Tag} (ht : w.Reads t u)
    (hu : fieldValid tag u = true) : (requireField site tag t).Attains w fun _ _ => True := by
  unfold requireField
  split
  · exact attains_pure trivial
  · next hno =>
    have hnever := fieldValidity_apply w.values hno
    rw [ht.value, fieldValid_iff.mp hu] at hnever
    cases hnever
  · have hp : (FieldPremise.mk t tag site).HoldsIn w.values := by
      rw [FieldPremise.HoldsIn, ht.value, hu]
    exact ⟨(), w.withField _ ht.below hp, returns_recordField_iff.mpr rfl,
      .of_values (Nat.le_refl _) rfl, trivial⟩

end Check

end CellCalculus
