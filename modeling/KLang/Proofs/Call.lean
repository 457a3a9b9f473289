import KLang.Proofs.Machine.Parsed

/-!
# What a call of a function does

A call evaluates its arguments in the scope that it stands in, converts each of them before it
evaluates the next, and executes the body of the function that it has found before with nothing but
the parameters.

* `Binds`, `BindFails`: how the values of the parameters are found, or why not all of them are.
* `Concludes`: what becomes of the body, and of the value that it gives.
* `Kind.Holds`: the values of a kind.
* `call_contract`: a call of a parsed function.
-/

namespace KLang

/-! ## The values of parameters -/

section Binds

variable (world : World) (enter : Enter)

/-- From left to right, each argument has a value in the state that the one before it has left, and
the kind of its parameter holds this value as the given one. -/
inductive Binds : State → List Parameter → List Expr → List Value → State → Prop
  | nil (s : State) : Binds s [] [] [] s
  | cons {s s' s'' : State} {p : Parameter} {ps : List Parameter} {e : Expr} {es : List Expr}
      {v w : Value} {ws : List Value} (heval : (evalExpr world enter e).run s = .ok v s')
      (hcoerce : v.coerce p.kind = .ok w) (more : Binds s' ps es ws s'') :
      Binds s (p :: ps) (e :: es) (w :: ws) s''

/-- The arguments up to some one have values, and this one is stopped, or the kind of its parameter
does not hold its value. -/
inductive BindFails (s : State) : List Parameter → List Expr → Stop → State → Prop
  | argument {s' s'' : State} {p : Parameter} {ps ps' : List Parameter} {e : Expr}
      {es es' : List Expr} {ws : List Value} {stop : Stop}
      (hfront : Binds world enter s ps es ws s')
      (heval : (evalExpr world enter e).run s' = .error stop s'') :
      BindFails s (ps ++ p :: ps') (es ++ e :: es') stop s''
  | coercion {s' s'' : State} {p : Parameter} {ps ps' : List Parameter} {e : Expr}
      {es es' : List Expr} {ws : List Value} {v : Value} {fault : Fault}
      (hfront : Binds world enter s ps es ws s')
      (heval : (evalExpr world enter e).run s' = .ok v s'')
      (hcoerce : v.coerce p.kind = .error fault) :
      BindFails s (ps ++ p :: ps') (es ++ e :: es') (.error ⟨fault, e.location, []⟩) s''

end Binds

variable {world : World} {enter : Enter} {s s' : State} {ps : List Parameter} {es : List Expr}
  {ws : List Value}

theorem Binds.length_eq (h : Binds world enter s ps es ws s') :
    es.length = ps.length ∧ ws.length = ps.length := by
  induction h with
  | nil => exact ⟨rfl, rfl⟩
  | cons _ _ _ ih => exact ih.imp (congrArg (· + 1)) (congrArg (· + 1))

theorem binds_or_fails (world : World) (enter : Enter) (s : State)
    (h : es.length = ps.length) :
    (∃ ws s', Binds world enter s ps es ws s') ∨
      ∃ stop s', BindFails world enter s ps es stop s' := by
  induction ps generalizing es s with
  | nil =>
    obtain rfl := List.eq_nil_of_length_eq_zero h
    exact .inl ⟨[], s, .nil s⟩
  | cons p ps ih =>
    obtain ⟨e, es, rfl⟩ := List.exists_cons_of_length_eq_add_one h
    cases heval : (evalExpr world enter e).run s with
    | error stop s' => exact .inr ⟨stop, s', .argument (.nil s) heval⟩
    | ok v s' =>
      cases hcoerce : v.coerce p.kind with
      | error fault => exact .inr ⟨_, s', .coercion (.nil s) heval hcoerce⟩
      | ok w =>
        obtain ⟨ws, s'', hmore⟩ | ⟨stop, s'', hfails⟩ := ih s' (Nat.succ.inj h)
        · exact .inl ⟨_, s'', .cons heval hcoerce hmore⟩
        · refine .inr ⟨stop, s'', ?_⟩
          cases hfails with
          | argument hfront hstop => exact .argument (.cons heval hcoerce hfront) hstop
          | coercion hfront hvalue hfault =>
            exact .coercion (.cons heval hcoerce hfront) hvalue hfault

theorem evalArguments_append (h : Binds world enter s ps es ws s') (ps' : List Parameter)
    (es' : List Expr) (bound : Table Value) :
    (evalArguments world enter (ps ++ ps') (es ++ es') bound).run s =
      (evalArguments world enter ps' es' (((ps.map Parameter.name).zip ws).foldl
        (fun t (n, v) => t.insert n v) bound)).run s' := by
  induction h generalizing bound with
  | nil => rfl
  | cons heval hcoerce _ ih =>
    rw [List.cons_append, List.cons_append, evalArguments, Eval.run_bind_of_ok heval, hcoerce]
    exact ih _

theorem Binds.map_fst_zip (h : Binds world enter s ps es ws s') :
    ((ps.map Parameter.name).zip ws).map Prod.fst = ps.map Parameter.name :=
  List.map_fst_zip (by simp [h.length_eq.2])

theorem evalArguments_of_binds (h : Binds world enter s ps es ws s')
    (hnames : (ps.map Parameter.name).Nodup) :
    (evalArguments world enter ps es ∅).run s = .ok ⟨(ps.map Parameter.name).zip ws⟩ s' := by
  have hrun := evalArguments_append h [] [] ∅
  rw [List.append_nil, List.append_nil] at hrun
  rw [hrun, ← Table.ofList_eq (h.map_fst_zip.symm ▸ hnames)]
  rfl

theorem evalArguments_of_fails {stop : Stop} (h : BindFails world enter s ps es stop s')
    (bound : Table Value) : (evalArguments world enter ps es bound).run s = .error stop s' := by
  cases h with
  | argument hfront heval =>
    rw [evalArguments_append hfront, evalArguments, Eval.run_bind_of_error heval]
  | coercion hfront heval hcoerce =>
    rw [evalArguments_append hfront, evalArguments, Eval.run_bind_of_ok heval, hcoerce]
    rfl

/-! ## The values of a kind -/

/-- The values that a kind holds: numbers, strings, or any of them. -/
def Kind.Holds : Kind → Value → Prop
  | .num, v => ∃ x, v = .number x
  | .str, v => ∃ s, v = .string s
  | .var, v => v ≠ .nil

theorem Kind.Holds.ne_nil {kind : Kind} {v : Value} (h : kind.Holds v) : v ≠ .nil := by
  cases kind with
  | num | str =>
    obtain ⟨_, rfl⟩ := h
    nofun
  | var => exact h

theorem Value.holds_of_coerce {kind : Kind} {v w : Value} (h : v.coerce kind = .ok w) :
    kind.Holds w := by
  cases kind <;> cases v <;> cases h <;> first | exact ⟨_, rfl⟩ | nofun

theorem Binds.holds (h : Binds world enter s ps es ws s') :
    ∀ pw ∈ ps.zip ws, pw.1.kind.Holds pw.2 := by
  induction h with
  | nil => exact fun _ h => absurd h List.not_mem_nil
  | cons _ hcoerce _ ih => exact List.forall_mem_cons.mpr ⟨Value.holds_of_coerce hcoerce, ih⟩

/-! ## The body -/

/-- What a call of the function at the location comes to once the parameters are bound. Its body is
executed in the state with nothing but the parameters around it, and the scope of the call is back
behind it; the value of the body, or nothing, is converted to the kind of the function. -/
inductive Concludes (world : World) (rounds : Nat) (l : Option Location) (f : Function)
    (bindings : Table Value) (s : State) : Nat → EStateM.Result Stop State Value → Prop
  | limit : Concludes world rounds l f bindings s 0 (.error .callLimit s)
  | stopped {depth : Nat} {stop : Stop} {s' : State}
      (h : (execBlock world (enterBody world rounds depth) rounds f.body).run
        (s.inside (some bindings)) = .error stop s') :
      Concludes world rounds l f bindings s (depth + 1)
        (.error (stop.through ⟨f.name, l⟩) (s'.inside s.locals))
  | value {depth : Nat} {flow : Flow} {s' : State} {w : Value}
      (h : (execBlock world (enterBody world rounds depth) rounds f.body).run
        (s.inside (some bindings)) = .ok flow s')
      (hcoerce : flow.value.coerce f.kind = .ok w) :
      Concludes world rounds l f bindings s (depth + 1) (.ok w (s'.inside s.locals))
  | coercion {depth : Nat} {flow : Flow} {s' : State} {fault : Fault}
      (h : (execBlock world (enterBody world rounds depth) rounds f.body).run
        (s.inside (some bindings)) = .ok flow s')
      (hcoerce : flow.value.coerce f.kind = .error fault) :
      Concludes world rounds l f bindings s (depth + 1)
        (.error (.error ⟨fault, l, []⟩) (s'.inside s.locals))

theorem callFunction_concludes (world : World) (rounds depth : Nat) (l : Option Location)
    (f : Function) (bindings : Table Value) (s : State) :
    Concludes world rounds l f bindings s depth
      ((callFunction (enterBody world rounds depth) l f bindings).run s) := by
  unfold callFunction
  cases depth with
  | zero => exact .limit
  | succ depth =>
    have henter : enterBody world rounds (depth + 1) f bindings =
        within bindings (execBlock world (enterBody world rounds depth) rounds f.body) := rfl
    have hrun := Eval.run_tracing ⟨f.name, l⟩ (enterBody world rounds (depth + 1) f bindings) s
    rw [henter, Eval.run_within] at hrun
    rw [henter]
    cases hbody : (execBlock world (enterBody world rounds depth) rounds f.body).run
      (s.inside (some bindings)) with
    | error stop s' =>
      rw [hbody] at hrun
      rw [Eval.run_bind_of_error hrun]
      exact .stopped hbody
    | ok flow s' =>
      rw [hbody] at hrun
      rw [Eval.run_bind_of_ok hrun]
      cases hcoerce : flow.value.coerce f.kind with
      | error fault => exact .coercion hbody hcoerce
      | ok w => exact .value hbody hcoerce

theorem Concludes.holds {rounds depth : Nat} {l : Option Location} {f : Function}
    {bindings : Table Value} {w : Value} {r : EStateM.Result Stop State Value}
    (h : Concludes world rounds l f bindings s depth r) (hr : r = .ok w s') : f.kind.Holds w := by
  cases h with
  | value _ hcoerce =>
    cases hr
    exact Value.holds_of_coerce hcoerce
  | limit | stopped | coercion => cases hr

/-! ## Calls -/

section Call

variable {l : Option Location} {name : String} {f : Function}
  (hname : s.functions.get? name = some f)
include hname

theorem run_resolve : (resolve l ⟨none, name⟩).run s = .ok (.function f) s := by
  have hverdict : (resolve l ⟨none, name⟩).verdict s = .ok (.function f) := by
    rw [resolve, Eval.verdict_get_bind]
    simp only [hname]
    rfl
  rw [Eval.run_eq, hverdict, Eval.after_resolve]

theorem run_call_of_ne (h : es.length ≠ f.parameters.length) :
    (evalExpr world enter (.call l ⟨none, name⟩ es)).run s =
      .error (.error ⟨.argumentCount f.parameters.length es.length, l, []⟩) s := by
  rw [evalExpr, Eval.run_bind_of_ok (run_resolve hname)]
  dsimp only
  rw [if_pos h]
  rfl

theorem run_call_of_eq (h : es.length = f.parameters.length) :
    (evalExpr world enter (.call l ⟨none, name⟩ es)).run s =
      (evalArguments world enter f.parameters es ∅ >>= callFunction enter l f).run s := by
  rw [evalExpr, Eval.run_bind_of_ok (run_resolve hname)]
  dsimp only
  rw [if_neg (not_not.mpr h)]

end Call

theorem Binds.sameNames {rounds depth : Nat}
    (h : Binds world (enterBody world rounds depth) s ps es ws s') : SameNames s s' := by
  induction h with
  | nil s => exact .refl s
  | @cons s s' s'' p ps e es v w ws heval _ _ ih =>
    have henter := names_discipline.enterBody world rounds depth
    have hfirst := names_discipline.evalExpr world henter e s
    rw [Eval.after, heval] at hfirst
    exact hfirst.trans _ _ _ ih

/-- **What a call of a function does.** A call with another number of arguments than the function
has parameters is an error that changes nothing. Otherwise the arguments are evaluated from left to
right in the scope of the call, each of them converted before the next, up to the first that fails,
which is what the call comes to. If none fails, the body is executed with the parameters as its only
variables, all different and in their order, each of them a value of its kind; and the call comes to
what the body does, or to its value as the kind of the function holds it. The function is the one
that the name had before the arguments were evaluated. -/
theorem call_contract (world : World) (rounds depth : Nat) (s : State) (l : Option Location)
    (name : String) (es : List Expr) {f : Function} (hf : f.Parsed)
    (hname : s.functions.get? name = some f) :
    let enter := enterBody world rounds depth
    let call := evalExpr world enter (.call l ⟨none, name⟩ es)
    (es.length ≠ f.parameters.length → call.run s =
      .error (.error ⟨.argumentCount f.parameters.length es.length, l, []⟩) s) ∧
    (es.length = f.parameters.length →
      (∃ stop s', BindFails world enter s f.parameters es stop s' ∧
        call.run s = .error stop s') ∨
      ∃ ws s', Binds world enter s f.parameters es ws s' ∧ SameNames s s' ∧
        let bindings : Table Value := ⟨(f.parameters.map Parameter.name).zip ws⟩
        bindings.names = f.parameters.map Parameter.name ∧ bindings.names.Nodup ∧
        (∀ pw ∈ f.parameters.zip ws, bindings.get? pw.1.name = some pw.2 ∧
          pw.1.kind.Holds pw.2 ∧ pw.2 ≠ .nil) ∧
        Concludes world rounds l f bindings s' depth (call.run s)) ∧
    ∀ w s', call.run s = .ok w s' → f.kind.Holds w ∧ w ≠ .nil := by
  intro enter call
  have harguments (h : es.length = f.parameters.length) :
      (∃ stop s', BindFails world enter s f.parameters es stop s' ∧ call.run s = .error stop s') ∨
      ∃ ws s', Binds world enter s f.parameters es ws s' ∧
        Concludes world rounds l f ⟨(f.parameters.map Parameter.name).zip ws⟩ s' depth
          (call.run s) := by
    have hrun : call.run s = (evalArguments world enter f.parameters es ∅ >>=
      callFunction enter l f).run s := run_call_of_eq hname h
    rw [hrun]
    obtain ⟨ws, s', hbinds⟩ | ⟨stop, s', hfails⟩ := binds_or_fails world enter s h
    · rw [Eval.run_bind_of_ok (evalArguments_of_binds hbinds hf.nodup_names)]
      exact .inr ⟨ws, s', hbinds, callFunction_concludes world rounds depth l f _ s'⟩
    · rw [Eval.run_bind_of_error (evalArguments_of_fails hfails ∅)]
      exact .inl ⟨stop, s', hfails, rfl⟩
  refine ⟨run_call_of_ne hname, fun h => (harguments h).imp_right ?_, fun w s' hw => ?_⟩
  · rintro ⟨ws, s', hbinds, hconcludes⟩
    have hnames := hbinds.map_fst_zip
    have hnodup : ((f.parameters.map Parameter.name).zip ws |>.map Prod.fst).Nodup :=
      hnames.symm ▸ hf.nodup_names
    refine ⟨ws, s', hbinds, hbinds.sameNames, hnames, hnodup, fun pw hpw => ?_, hconcludes⟩
    have hholds := hbinds.holds pw hpw
    have hentry : (pw.1.name, pw.2) ∈ (f.parameters.map Parameter.name).zip ws := by
      rw [List.zip_map_left]
      exact List.mem_map_of_mem (f := Prod.map Parameter.name id) hpw
    exact ⟨Table.get?_of_mem hnodup hentry, hholds, hholds.ne_nil⟩
  · have hholds : f.kind.Holds w := by
      by_cases h : es.length = f.parameters.length
      · obtain ⟨stop, t, -, hstop⟩ | ⟨ws, t, -, hconcludes⟩ := harguments h
        · cases hstop.symm.trans hw
        · exact hconcludes.holds hw
      · cases (run_call_of_ne hname h).symm.trans hw
    exact ⟨hholds, hholds.ne_nil⟩

/-- The argument declares another function of the name of the one that is called, which is executed
all the same. -/
theorem call_contract_redefined :
    let world : World := ⟨"", false, fun _ => false⟩
    let f : Function := ⟨.var, "f", [⟨none, .num, "x"⟩],
      ⟨none, [.returnValue none (some (.variable none ⟨none, "x"⟩))]⟩⟩
    let f' : Function := { f with body := ⟨none, []⟩ }
    let g : Function :=
      ⟨.var, "g", [], ⟨none, [.define none f', .returnValue none (some (.number none 1))]⟩⟩
    let s : State := ⟨⟨∅, ⟨[("f", f), ("g", g)]⟩, ∅⟩, none, ∅⟩
    let s' : State := ⟨⟨∅, ⟨[("f", f'), ("g", g)]⟩, ∅⟩, none, ∅⟩
    let call := evalExpr world (enterBody world 0 2)
      (.call none ⟨none, "f"⟩ [.call none ⟨none, "g"⟩ []])
    Interpreter.History ∅ s.toInterpreter ∧ f.Parsed ∧ s.functions.get? "f" = some f ∧
      call.run s = .ok (.number 1) s' ∧
      (∃ ws, Binds world (enterBody world 0 2) s f.parameters [.call none ⟨none, "g"⟩ []] ws s' ∧
        Concludes world 0 none f ⟨["x"].zip ws⟩ s' 2 (call.run s)) ∧
      f.kind.Holds (.number 1) := by
  intro world f f' g s s' call
  let text := "fun f(num x) \x7b return x; \x7d fun g() \x7b fun f(num x) \x7b \x7d return 1; \x7d"
  obtain ⟨words, hstatements, hwords⟩ : ∃ words,
      IsStatements words [.define none f, .define none g] ∧
        (Tokens.ofText text none).words = words := by
    have hdefine {u : List Token} {body : Block} (h : IsBlock u body) :=
      IsStatement.define none (.mk none none none "f" .absent
        ⟨⟨[(_, ⟨none, .num, "x"⟩)], .cons .nil, by simpa using .mk none none .num "x", rfl⟩,
          by decide⟩) h
    have hvalue : IsExpr .plain [⟨.identifier "x", none⟩] (.variable none ⟨none, "x"⟩) :=
      (Derives.name none "x").of_primary
    have hone : IsExpr .plain [⟨.number "1" 1, none⟩] (.number none 1) :=
      (Derives.number none "1" 1).of_primary
    have hbody : IsBlock _ g.body := .mk none none <|
      .cons (hdefine (.mk none none .nil)) <| .cons (.returnValue none none hone) .nil
    refine ⟨_, .cons (hdefine (.mk none none (.cons (.returnValue none none hvalue) .nil))) <|
      .cons (.define none (.mk none none none "g" .absent ⟨⟨[], .nil, by simp, rfl⟩, .nil⟩) hbody)
        .nil, ?_⟩
    decide +kernel
  have htext : Program.ofText text none = .ok ⟨none, [.define none f, .define none g]⟩ := by
    refine Program.ofText_eq_ok.mpr ⟨none, by decide +kernel, hwords ▸ hstatements, ?_⟩
    decide +kernel
  have hhistory : Interpreter.History ∅ s.toInterpreter := by
    have hnext := @Interpreter.Next.text ∅ .standard world ∅ text none
    rw [Session.eval, Interpreter.runText, htext] at hnext
    exact .single hnext
  have hf : f.Parsed := Interpreter.parsed_of_history hhistory "f" f rfl
  have hrun : call.run s = .ok (.number 1) s' := rfl
  obtain ⟨-, harguments, hkind⟩ :=
    call_contract world 0 2 s none "f" [.call none ⟨none, "g"⟩ []] hf rfl
  refine ⟨hhistory, hf, rfl, hrun, ?_, (hkind _ _ hrun).1⟩
  obtain ⟨stop, t, -, hstop⟩ | ⟨ws, t, hbinds, -, -, -, -, hconcludes⟩ := harguments rfl
  · cases hrun.symm.trans hstop
  · have hargument : (evalExpr world (enterBody world 0 2) (.call none ⟨none, "g"⟩ [])).run s =
        .ok (.number 1) s' := rfl
    obtain _ | ⟨heval, hcoerce, more⟩ := hbinds
    cases hargument.symm.trans heval
    cases more
    exact ⟨_, .cons heval hcoerce (.nil s'), hconcludes⟩

end KLang
