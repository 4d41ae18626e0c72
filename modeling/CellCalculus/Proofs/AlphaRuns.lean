import CellCalculus.Proofs.AlphaEquivalence
import CellCalculus.Proofs.StepSimulation

/-!
# Runs do not depend on the names of bound variables

Substitution goes by names and does not rename what a binder binds, so it could capture a variable
of the value that is put in. The values that a run of closed values puts in have none, and programs
that are equal up to the names of bound variables run in lockstep.
-/

namespace CellCalculus

namespace AlphaEq

variable {Γ : BinderPairs}

theorem exists_val {v : Val} {e' : Expr} (h : AlphaEq Γ (.val v) e') : ∃ v', e' = .val v' := by
  cases h with
  | lit | closure _ | pairVal _ _ => exact ⟨_, rfl⟩

theorem sameShape {v v' : Val} (h : AlphaEq Γ (.val v) (.val v')) : v.SameShape v' := by
  cases h with
  | lit => exact .lit
  | closure _ => exact .closure
  | pairVal _ _ => exact .pair

theorem frame {F : Frame} {d e' : Expr} (h : AlphaEq Γ (F.fill d) e') :
    ∃ (F' : Frame) (d' : Expr), e' = F'.fill d' ∧ AlphaEq Γ d d' ∧
      ∀ {c c'}, AlphaEq Γ c c' → AlphaEq Γ (F.fill c) (F'.fill c') := by
  cases F with
  | appL v =>
    cases h with
    | app hd hv =>
      obtain ⟨v', rfl⟩ := hv.exists_val
      exact ⟨.appL v', _, rfl, hd, fun hc => .app hc hv⟩
  | appR e =>
    cases h with
    | app he hd => exact ⟨.appR _, _, rfl, hd, fun hc => .app he hc⟩
  | binopL op v =>
    cases h with
    | binop hd hv =>
      obtain ⟨v', rfl⟩ := hv.exists_val
      exact ⟨.binopL op v', _, rfl, hd, fun hc => .binop hc hv⟩
  | binopR op e =>
    cases h with
    | binop he hd => exact ⟨.binopR op _, _, rfl, hd, fun hc => .binop he hc⟩
  | pairL tag v =>
    cases h with
    | pair hd hv =>
      obtain ⟨v', rfl⟩ := hv.exists_val
      exact ⟨.pairL tag v', _, rfl, hd, fun hc => .pair hc hv⟩
  | pairR tag e =>
    cases h with
    | pair he hd => exact ⟨.pairR tag _, _, rfl, hd, fun hc => .pair he hc⟩
  | recordL v =>
    cases h with
    | record hd hv =>
      obtain ⟨v', rfl⟩ := hv.exists_val
      exact ⟨.recordL v', _, rfl, hd, fun hc => .record hc hv⟩
  | recordR e =>
    cases h with
    | record he hd => exact ⟨.recordR _, _, rfl, hd, fun hc => .record he hc⟩
  | allocL v =>
    cases h with
    | alloc hd hv =>
      obtain ⟨v', rfl⟩ := hv.exists_val
      exact ⟨.allocL v', _, rfl, hd, fun hc => .alloc hc hv⟩
  | allocR e =>
    cases h with
    | alloc he hd => exact ⟨.allocR _, _, rfl, hd, fun hc => .alloc he hc⟩
  | storeL v =>
    cases h with
    | store hd hv =>
      obtain ⟨v', rfl⟩ := hv.exists_val
      exact ⟨.storeL v', _, rfl, hd, fun hc => .store hc hv⟩
  | storeR e =>
    cases h with
    | store he hd => exact ⟨.storeR _, _, rfl, hd, fun hc => .store he hc⟩
  | ite t f =>
    cases h with
    | ite hd ht hf => exact ⟨.ite _ _, _, rfl, hd, fun hc => .ite hc ht hf⟩
  | unop op =>
    cases h with
    | unop hd => exact ⟨.unop op, _, rfl, hd, .unop⟩
  | fst =>
    cases h with
    | fst hd => exact ⟨.fst, _, rfl, hd, .fst⟩
  | snd =>
    cases h with
    | snd hd => exact ⟨.snd, _, rfl, hd, .snd⟩
  | free =>
    cases h with
    | free hd => exact ⟨.free, _, rfl, hd, .free⟩
  | load =>
    cases h with
    | load hd => exact ⟨.load, _, rfl, hd, .load⟩

theorem contracts {r r' e : Expr} (h : AlphaEq [] r r') (hr : r.Sealed)
    (hc : Contracts r (.expr e)) : ∃ e', Contracts r' (.expr e') ∧ AlphaEq [] e e' := by
  cases hc with
  | fn =>
    cases h with
    | fn hb => exact ⟨_, .fn, .closure hb⟩
  | @app self param body v =>
    have hfunc := framewise_sealed.hole (.appL v) hr
    have hv := framewise_sealed.hole (.appR (.val (.closure self param body))) hr
    have hbody : body.valuesClosed = true := (Bool.and_eq_true_iff.mp hfunc.2).2
    cases h with
    | app hf hvals =>
      obtain ⟨v', rfl⟩ := hvals.exists_val
      cases hf with
      | closure hb =>
        have hself := hb.substBinder hbody hfunc.1 (.closure hb)
        have hclosed : (body.substBinder self (.closure self param body)).valuesClosed = true :=
          shallow_closedValue.everywhere_substBinder hbody hfunc.2
        exact ⟨_, .app, hself.substBinder hclosed hv.1 hvals⟩
  | @unop op v u hu =>
    cases h with
    | unop hv =>
      obtain ⟨v', rfl⟩ := hv.exists_val
      refine ⟨.val u, .unop (hv.sameShape.unop_ok hu), ?_⟩
      obtain ⟨l, rfl⟩ := UnaryOp.exists_lit_of_eval_ok hu
      exact .lit
  | @binop op v w u hu =>
    cases h with
    | binop hv hw =>
      obtain ⟨v', rfl⟩ := hv.exists_val
      obtain ⟨w', rfl⟩ := hw.exists_val
      refine ⟨.val u, .binop (hv.sameShape.binop_ok hw.sameShape hu), ?_⟩
      obtain ⟨l, rfl⟩ := BinaryOp.exists_lit_of_eval_ok hu
      exact .lit
  | thenE =>
    cases h with
    | ite hb ht _ =>
      cases hb
      exact ⟨_, .thenE, ht⟩
  | elseE =>
    cases h with
    | ite hb _ hf =>
      cases hb
      exact ⟨_, .elseE, hf⟩
  | pair =>
    cases h with
    | pair hv hw =>
      obtain ⟨v', rfl⟩ := hv.exists_val
      obtain ⟨w', rfl⟩ := hw.exists_val
      exact ⟨_, .pair, .pairVal hv hw⟩
  | record =>
    cases h with
    | record hv hw =>
      obtain ⟨v', rfl⟩ := hv.exists_val
      obtain ⟨w', rfl⟩ := hw.exists_val
      exact ⟨_, .record, .pairVal hv hw⟩
  | fst =>
    cases h with
    | fst hp =>
      cases hp with
      | pairVal hv _ => exact ⟨_, .fst, hv⟩
  | snd =>
    cases h with
    | snd hp =>
      cases hp with
      | pairVal _ hw => exact ⟨_, .snd, hw⟩
  | ref =>
    cases h with
    | ref hv =>
      obtain ⟨v', rfl⟩ := hv.exists_val
      exact ⟨_, .ref, hv⟩

theorem call {r r' : Expr} {c : HeapCall} (h : AlphaEq Γ r r') (hc : Contracts r (.call c)) :
    ∃ c', Contracts r' (.call c') ∧ HeapCall.Related (AlphaEq Γ) c c' := by
  cases hc with
  | alloc =>
    cases h with
    | alloc hn hv =>
      obtain ⟨v', rfl⟩ := hv.exists_val
      cases hn
      exact ⟨_, .alloc, .allocate hv⟩
  | free =>
    cases h with
    | free hl =>
      cases hl
      exact ⟨_, .free, .free⟩
  | load =>
    cases h with
    | load hl =>
      cases hl
      exact ⟨_, .load, .load⟩
  | store =>
    cases h with
    | store hl hv =>
      obtain ⟨v', rfl⟩ := hv.exists_val
      cases hl
      exact ⟨_, .store, .store hv⟩

theorem refuses {r r' : Expr} {err : StuckError} (h : AlphaEq [] r r') (hr : Refuses r err) :
    ∃ err', Refuses r' err' ∧ StuckError.Related (AlphaEq []) err err' := by
  cases hr with
  | var =>
    cases h with
    | var hxy =>
      obtain rfl := beq_iff_eq.mp hxy
      exact ⟨_, .var, .freeVariable⟩
  | app hfunc =>
    cases h with
    | app hf hv =>
      obtain ⟨func', rfl⟩ := hf.exists_val
      obtain ⟨v', rfl⟩ := hv.exists_val
      exact ⟨_, .app (hf.sameShape.ne_closure hfunc), .notAFunction hf⟩
  | unop hu =>
    cases h with
    | unop hv =>
      obtain ⟨v', rfl⟩ := hv.exists_val
      exact ⟨_, .unop (hv.sameShape.unop_error hu), .unaryMismatch hv⟩
  | binop hu =>
    cases h with
    | binop hv hw =>
      obtain ⟨v', rfl⟩ := hv.exists_val
      obtain ⟨w', rfl⟩ := hw.exists_val
      exact ⟨_, .binop (hv.sameShape.binop_error hw.sameShape hu), .binaryMismatch hv hw⟩
  | ite hb =>
    cases h with
    | ite hv _ _ =>
      obtain ⟨v', rfl⟩ := hv.exists_val
      exact ⟨_, .ite (hv.sameShape.toBool?_eq.trans hb), .notABoolean hv⟩
  | fst hp =>
    cases h with
    | fst hv =>
      obtain ⟨v', rfl⟩ := hv.exists_val
      exact ⟨_, .fst (hv.sameShape.ne_pair hp), .notAPair hv⟩
  | snd hp =>
    cases h with
    | snd hv =>
      obtain ⟨v', rfl⟩ := hv.exists_val
      exact ⟨_, .snd (hv.sameShape.ne_pair hp), .notAPair hv⟩
  | alloc hn =>
    cases h with
    | alloc hv hw =>
      obtain ⟨v', rfl⟩ := hv.exists_val
      obtain ⟨w', rfl⟩ := hw.exists_val
      exact ⟨_, .alloc (hv.sameShape.toInt?_eq.trans hn), .invalidSize hv⟩
  | free hl =>
    cases h with
    | free hv =>
      obtain ⟨v', rfl⟩ := hv.exists_val
      exact ⟨_, .free (hv.sameShape.toLoc?_eq.trans hl), .invalidAddress hv⟩
  | load hl =>
    cases h with
    | load hv =>
      obtain ⟨v', rfl⟩ := hv.exists_val
      exact ⟨_, .load (hv.sameShape.toLoc?_eq.trans hl), .invalidAddress hv⟩
  | store hl =>
    cases h with
    | store hv hw =>
      obtain ⟨v', rfl⟩ := hv.exists_val
      obtain ⟨w', rfl⟩ := hw.exists_val
      exact ⟨_, .store (hv.sameShape.toLoc?_eq.trans hl), .invalidAddress hv⟩
  | refVar =>
    cases h with
    | ref he =>
      cases he with
      | var hxy =>
        obtain rfl := beq_iff_eq.mp hxy
        exact ⟨_, .refVar, .freeVariable⟩
  | ref he hvar =>
    cases h with
    | @ref _ a a' ha =>
      refine ⟨_, .ref ?_ ?_, .malformedReference (.ref ha)⟩
      · cases ha <;> first | rfl | cases he
      · cases ha <;> first | exact absurd rfl (hvar _) | exact nofun

end AlphaEq

theorem simulation_alphaEq : Simulation (AlphaEq []) Expr.Sealed where
  invariant := stepInvariant_sealed
  lit _ := .lit
  value := AlphaEq.exists_val
  frame := AlphaEq.frame
  contracts hr h := h.contracts hr
  call := AlphaEq.call
  refuses := AlphaEq.refuses

/-- Two configurations that are equal up to the names of bound variables, with closed values
everywhere, run in lockstep: the same number of steps leads to configurations of that kind, and
there both are values, both are stuck for the same reason or both go on. -/
theorem alphaEq_run {e e' : Expr} {h h' : Heap} (he : e.Sealed) (hh : h.Sealed)
    (hexpr : AlphaEq [] e e') (hheap : h.Related (AlphaEq []) h') (n : Nat) :
    Option.Rel (ConfigRelated (AlphaEq [])) (configAfter n e h) (configAfter n e' h') :=
  simulation_alphaEq.configAfter he hh hexpr hheap n

theorem Heap.related_single {R : Expr → Expr → Prop} {v v' : Val} (h : R (.val v) (.val v')) :
    Heap.Related R ⟨#[some v]⟩ ⟨#[some v']⟩ := by
  intro i
  cases i with
  | zero => exact .some (.some h)
  | succ i => exact .none

/-- Applies the function in the first cell to a function that gives itself back, whatever the names
of its binders are. -/
def loadedOnItself (self param : String) : Expr :=
  .app (.load (.val (.loc ⟨0⟩))) (.app (.fn (.named self) (.named param) (.var self)) (.int 1))

def identity (x : String) : Val := .closure .anon (.named x) (.var x)

/-- Where self-name and parameter are called the same, the self-name is meant. -/
theorem loadedOnItself_alphaEq_run :
    (loadedOnItself "f" "f").Sealed ∧ Heap.Sealed ⟨#[some (identity "y")]⟩ ∧
      AlphaEq [] (loadedOnItself "f" "f") (loadedOnItself "g" "x") ∧
      Heap.Related (AlphaEq []) ⟨#[some (identity "y")]⟩ ⟨#[some (identity "z")]⟩ ∧
      configAfter 4 (loadedOnItself "f" "f") ⟨#[some (identity "y")]⟩ =
        some (.val (.closure (.named "f") (.named "f") (.var "f")), ⟨#[some (identity "y")]⟩) ∧
      configAfter 4 (loadedOnItself "g" "x") ⟨#[some (identity "z")]⟩ =
        some (.val (.closure (.named "g") (.named "x") (.var "g")), ⟨#[some (identity "z")]⟩) ∧
      AlphaEq [] (.val (.closure (.named "f") (.named "f") (.var "f")))
        (.val (.closure (.named "g") (.named "x") (.var "g"))) := by
  have he : (loadedOnItself "f" "f").Sealed := ⟨by decide, by decide⟩
  have hh : Heap.Sealed ⟨#[some (identity "y")]⟩ := Heap.All.single ⟨by decide, by decide⟩
  have hexpr : AlphaEq [] (loadedOnItself "f" "f") (loadedOnItself "g" "x") :=
    .app (.load .lit) (.app (.fn (.var (by decide))) .lit)
  have hheap : Heap.Related (AlphaEq []) ⟨#[some (identity "y")]⟩ ⟨#[some (identity "z")]⟩ :=
    Heap.related_single (.closure (.var (by decide)))
  have hleft : configAfter 4 (loadedOnItself "f" "f") ⟨#[some (identity "y")]⟩ =
      some (.val (.closure (.named "f") (.named "f") (.var "f")), ⟨#[some (identity "y")]⟩) := by
    decide
  have hright : configAfter 4 (loadedOnItself "g" "x") ⟨#[some (identity "z")]⟩ =
      some (.val (.closure (.named "g") (.named "x") (.var "g")), ⟨#[some (identity "z")]⟩) := by
    decide
  have hrun := alphaEq_run he hh hexpr hheap 4
  rw [hleft, hright] at hrun
  cases hrun with
  | some hlast => exact ⟨he, hh, hexpr, hheap, hleft, hright, hlast.expr⟩

/-- A function of `x` that gives back a closure, in which `x` occurs. -/
def parameterInClosure (x : String) : Val :=
  .closure .anon (.named x) (.val (.closure .anon (.named "y") (.var x)))

def loadedCall : Expr := .app (.load (.val (.loc ⟨0⟩))) (.int 1)

/-- It is not enough that the cells hold closed values: once a closure is out of the function around
it, the name that the function gave to its parameter makes a difference. -/
theorem parameterInClosure_apart :
    loadedCall.Sealed ∧ AlphaEq [] loadedCall loadedCall ∧
      (parameterInClosure "x").closed = true ∧ (parameterInClosure "z").closed = true ∧
      Heap.Related (AlphaEq []) ⟨#[some (parameterInClosure "x")]⟩
        ⟨#[some (parameterInClosure "z")]⟩ ∧
      configAfter 2 loadedCall ⟨#[some (parameterInClosure "x")]⟩ =
        some (.val (.closure .anon (.named "y") (.var "x")), ⟨#[some (parameterInClosure "x")]⟩) ∧
      configAfter 2 loadedCall ⟨#[some (parameterInClosure "z")]⟩ =
        some (.val (.closure .anon (.named "y") (.var "z")), ⟨#[some (parameterInClosure "z")]⟩) ∧
      ¬AlphaEq [] (.val (.closure .anon (.named "y") (.var "x")))
        (.val (.closure .anon (.named "y") (.var "z"))) := by
  have hvals : AlphaEq [] (.val (parameterInClosure "x")) (.val (parameterInClosure "z")) :=
    .closure (.closure (.var (by decide)))
  have hapart : ¬AlphaEq [] (.val (.closure .anon (.named "y") (.var "x")))
      (.val (.closure .anon (.named "y") (.var "z"))) := by
    intro h
    cases h with
    | closure hbody =>
      cases hbody with
      | var hxz => cases hxz
  exact ⟨⟨by decide, by decide⟩, Expr.alphaEq_refl [] loadedCall, by decide, by decide,
    Heap.related_single hvals, by decide, by decide, hapart⟩

end CellCalculus
