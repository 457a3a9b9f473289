import KLang.Interpreter.Calling
import KLang.Proofs.Evaluation.Effect
import KLang.Proofs.Number.Truncation

/-!
# Builtin functions are called by their signatures

The signature of a builtin function decides on its own which values it accepts, what it receives for
them and of which type its value is.

* `Packs`: what a function receives for the parameters of its signature, and `Signature.pack_eq_ok`:
  this is what is packed.
* `DataKind.Accepts`: how many values there must be and what they must be, and `exists_packs_iff`:
  just these are packed.
* `Signature.conclude`: what an outcome of the function comes to.
* `callBuiltin_of_packs`, `callBuiltin_ofNumber`: a call with what has been packed, and that of a
  function of one number.
* `callBuiltin_obeys_signature`: a call is refused at its location, or the function is called with
  what has been packed and gives a value of the type in its signature.
-/

namespace KLang

/-! ## What a function receives -/

/-- What a function receives for a parameter that takes one value. -/
inductive Receives : DataKind → Value → Argument → Prop
  | int {x : Number} (h : x.isFinite = true) :
      Receives .int (.number x) (.int (truncation x.toRat))
  | double (x : Number) : Receives .double (.number x) (.double x)
  | string (s : String) : Receives .string (.string s) (.string s)

/-- What a function receives for its parameters: one thing for each of them, in order. An array at
the end receives the texts of all values that are left. -/
inductive Packs : List DataKind → List Value → List Argument → Prop
  | nil : Packs [] [] []
  | rest {vs : List Value} {ss : List String} (h : vs = ss.map .string) :
      Packs [.strings] vs [.strings ss]
  | cons {kind : DataKind} {kinds : List DataKind} {v : Value} {vs : List Value} {a : Argument}
      {as : List Argument} (h : Receives kind v a) (more : Packs kinds vs as) :
      Packs (kind :: kinds) (v :: vs) (a :: as)

variable {kind : DataKind} {kinds : List DataKind} {v : Value} {vs : List Value} {a : Argument}
  {as : List Argument}

theorem Receives.ne_strings (h : Receives kind v a) : kind ≠ .strings := by
  cases h <;> nofun

theorem Packs.length_eq (h : Packs kinds vs as) : as.length = kinds.length := by
  induction h with
  | nil | rest => rfl
  | cons _ _ ih => exact congrArg (· + 1) ih

namespace Signature

theorem packOne_eq_ok {index : Nat} : packOne kind index v = .ok a ↔ Receives kind v a := by
  constructor
  · intro h
    unfold packOne at h
    split at h
    case h_1 x =>
      split at h
      · rename_i i hi
        cases h
        obtain ⟨hfinite, rfl⟩ := Number.toInt?_eq_ok.mp hi
        exact .int hfinite
      · cases h
    all_goals cases h
    · exact .double _
    · exact .string _
  · rintro (@⟨x, hfinite⟩ | _ | _)
    · have hi : x.toInt? = .ok (truncation x.toRat) := Number.toInt?_eq_ok.mpr ⟨hfinite, rfl⟩
      simp only [packOne, hi]
    · rfl
    · rfl

theorem packStrings_eq_ok {ss : List String} : packStrings vs = .ok ss ↔ vs = ss.map .string := by
  induction vs generalizing ss with
  | nil => simp [packStrings, eq_comm]
  | cons v vs ih =>
    cases v with
    | string s =>
      cases hrest : packStrings vs with
      | error f =>
        have hnone (ss' : List String) : vs ≠ ss'.map .string := fun h => by
          cases hrest.symm.trans (ih.mpr h)
        cases ss <;> simp [packStrings, hrest, hnone]
      | ok ss' =>
        cases ih.mp hrest
        cases ss <;> simp [packStrings, hrest, List.map_inj_right, Value.string.injEq]
    | nil | number => cases ss <;> simp [packStrings]

theorem packFrom_eq_ok {miscounted : SignatureFault} {index : Nat} :
    packFrom miscounted index kinds vs = .ok as ↔ Packs kinds vs as := by
  fun_induction packFrom miscounted index kinds vs generalizing as with
  | case1 => exact ⟨by rintro ⟨⟩; exact .nil, by rintro ⟨⟩; rfl⟩
  | case2 => exact ⟨nofun, nofun⟩
  | case3 index vs =>
    constructor
    · intro h
      cases hss : packStrings vs with
      | error f =>
        rw [hss] at h
        cases h
      | ok ss =>
        rw [hss] at h
        cases h
        exact .rest (packStrings_eq_ok.mp hss)
    · rintro (_ | h | ⟨h, _⟩)
      · rw [packStrings_eq_ok.mpr h]
        rfl
      · exact absurd rfl h.ne_strings
  | case4 => exact ⟨nofun, by rintro (_ | _ | ⟨h, _⟩); exact absurd rfl h.ne_strings⟩
  | case5 index kind kinds hlast =>
    exact ⟨nofun, by rintro (_ | _); exact (hlast rfl rfl).elim⟩
  | case6 index kind kinds v vs hlast _ ih =>
    constructor
    · intro h
      cases ha : packOne kind index v with
      | error f =>
        rw [ha] at h
        cases h
      | ok a =>
        cases has : packFrom miscounted (index + 1) kinds vs with
        | error f =>
          rw [ha, has] at h
          cases h
        | ok as =>
          rw [ha, has] at h
          cases h
          exact .cons (packOne_eq_ok.mp ha) (ih.mp has)
    · rintro (_ | _ | ⟨h, more⟩)
      · exact (hlast rfl rfl).elim
      · rw [packOne_eq_ok.mpr h, ih.mpr more]
        rfl

/-- What a function receives is what its signature packs. -/
theorem pack_eq_ok {sig : Signature} : sig.pack vs = .ok as ↔ Packs sig.parameters vs as :=
  packFrom_eq_ok

end Signature

/-! ## What is accepted -/

namespace DataKind

/-- The values that are taken for a parameter, by an array as one of its elements. -/
def Fits : DataKind → Value → Prop
  | .int, .number x => x.isFinite = true
  | .double, .number _ => True
  | .string, .string _ => True
  | .strings, .string _ => True
  | _, _ => False

/-- The numbers of values that are taken for parameters: one value for each parameter or, with an
array as the last parameter and nowhere else, at least one for each of the others. -/
def TakesCount (kinds : List DataKind) (n : Nat) : Prop :=
  (.strings ∉ kinds ∧ n = kinds.length) ∨
    (kinds.getLast? = some .strings ∧ .strings ∉ kinds.dropLast ∧ kinds.length - 1 ≤ n)

/-- The values that are taken for parameters: as many as there must be, and each fits its parameter;
those behind the last parameter are for an array. -/
structure Accepts (kinds : List DataKind) (vs : List Value) : Prop where
  count : TakesCount kinds vs.length
  fits : ∀ i (h : i < vs.length), (kinds.getD i .strings).Fits vs[i]

end DataKind

open DataKind

theorem exists_receives_iff (hkind : kind ≠ .strings) : (∃ a, Receives kind v a) ↔ kind.Fits v := by
  constructor
  · rintro ⟨_, h | _ | _⟩
    · exact h
    · trivial
    · trivial
  · intro h
    cases kind with
    | int =>
      cases v with
      | number x => exact ⟨_, .int h⟩
      | nil | string => exact h.elim
    | double =>
      cases v with
      | number x => exact ⟨_, .double x⟩
      | nil | string => exact h.elim
    | string =>
      cases v with
      | string s => exact ⟨_, .string s⟩
      | nil | number => exact h.elim
    | strings => exact absurd rfl hkind
    | void => exact h.elim

theorem takesCount_cons (hkind : kind ≠ .strings) {n : Nat} :
    TakesCount (kind :: kinds) (n + 1) ↔ TakesCount kinds n := by
  cases kinds with
  | nil => simp [TakesCount, hkind, hkind.symm]
  | cons kind' kinds => simp [TakesCount, hkind.symm]

theorem not_takesCount_zero (hkind : kind ≠ .strings) : ¬ TakesCount (kind :: kinds) 0 := by
  cases kinds <;> simp [TakesCount, hkind]

theorem takesCount_strings {n : Nat} : TakesCount (.strings :: kinds) n ↔ kinds = [] := by
  cases kinds <;> simp [TakesCount]

theorem accepts_cons (hkind : kind ≠ .strings) :
    Accepts (kind :: kinds) (v :: vs) ↔ kind.Fits v ∧ Accepts kinds vs := by
  constructor
  · rintro ⟨hcount, hfits⟩
    refine ⟨hfits 0 (Nat.zero_lt_succ _), (takesCount_cons hkind).mp hcount, fun i h => ?_⟩
    exact hfits (i + 1) (Nat.succ_lt_succ h)
  · rintro ⟨hv, hcount, hfits⟩
    refine ⟨(takesCount_cons hkind).mpr hcount, fun i h => ?_⟩
    cases i with
    | zero => exact hv
    | succ i => exact hfits i (Nat.lt_of_succ_lt_succ h)

theorem strings_fits : Fits .strings v ↔ ∃ s, v = .string s := by
  cases v <;> simp [Fits]

theorem accepts_strings :
    Accepts (.strings :: kinds) vs ↔ kinds = [] ∧ ∃ ss : List String, vs = ss.map .string := by
  constructor
  · rintro ⟨hcount, hfits⟩
    obtain rfl := takesCount_strings.mp hcount
    have hmap : vs ∈ Set.range (List.map Value.string) := by
      rw [Set.range_list_map]
      intro v hv
      obtain ⟨i, h, rfl⟩ := List.getElem_of_mem hv
      have hfit : Fits .strings vs[i] := by cases i <;> exact hfits _ h
      obtain ⟨s, hs⟩ := strings_fits.mp hfit
      exact ⟨s, hs.symm⟩
    obtain ⟨ss, rfl⟩ := hmap
    exact ⟨rfl, ss, rfl⟩
  · rintro ⟨rfl, ss, rfl⟩
    refine ⟨takesCount_strings.mpr rfl, fun i h => ?_⟩
    rw [List.getElem_map]
    cases i <;> trivial

/-- What is accepted is received. -/
theorem exists_packs_iff : (∃ as, Packs kinds vs as) ↔ Accepts kinds vs := by
  constructor
  · rintro ⟨as, h⟩
    induction h with
    | nil => exact ⟨.inl ⟨nofun, rfl⟩, nofun⟩
    | rest h => exact accepts_strings.mpr ⟨rfl, _, h⟩
    | cons h _ ih =>
      exact (accepts_cons h.ne_strings).mpr ⟨(exists_receives_iff h.ne_strings).mp ⟨_, h⟩, ih⟩
  · intro h
    induction kinds generalizing vs with
    | nil =>
      obtain ⟨_, hlength⟩ | ⟨hlast, _⟩ := h.count
      · exact ⟨[], List.eq_nil_of_length_eq_zero hlength ▸ .nil⟩
      · cases hlast
    | cons kind kinds ih =>
      by_cases hkind : kind = .strings
      · subst hkind
        obtain ⟨rfl, ss, hss⟩ := accepts_strings.mp h
        exact ⟨_, .rest hss⟩
      · cases vs with
        | nil => exact (not_takesCount_zero hkind h.count).elim
        | cons v vs =>
          obtain ⟨hv, hvs⟩ := (accepts_cons hkind).mp h
          obtain ⟨a, ha⟩ := (exists_receives_iff hkind).mpr hv
          obtain ⟨as, has⟩ := ih hvs
          exact ⟨_, .cons ha has⟩

/-! ## What a call comes to -/

/-- The values of a type: nothing is the value of a function that has none, and there are no arrays.
-/
def DataKind.Gives : DataKind → Value → Prop
  | .int, .number _ => True
  | .double, .number _ => True
  | .string, .string _ => True
  | .void, .nil => True
  | _, _ => False

/-- What an outcome of the function comes to: what it was refused for, or the value of its reply,
with the plot drawn that it asks for. -/
def Signature.conclude (world : World) (l : Option Location) (sig : Signature) :
    Except Refusal Action → Eval Value
  | .error why => Eval.fault l (.refused why)
  | .ok (.reply r) => Eval.ofExcept l (r.unpack sig.name sig.result)
  | .ok (.plot script) => do
    drawPlot world l script
    Eval.ofExcept l (Reply.nothing.unpack sig.name sig.result)

/-- An evaluation that gives a value of the type, or stops with an error at the location. -/
def Eval.Answers (l : Option Location) (kind : DataKind) (x : Eval Value) : Prop :=
  ∀ s, (∃ v, x.verdict s = .ok v ∧ kind.Gives v) ∨ ∃ f, x.verdict s = .error (.error ⟨f, l, []⟩)

namespace Reply

variable {r : Reply}

theorem finiteInt_gives {i : Int} (h : finiteInt i = .ok v) : DataKind.int.Gives v := by
  simp only [finiteInt] at h
  split at h <;> cases h
  trivial

theorem unpackInt_gives (h : r.unpackInt = .ok v) : DataKind.int.Gives v := by
  unfold unpackInt at h
  repeat' split at h
  all_goals first | exact finiteInt_gives h | cases h
  trivial

theorem unpackDouble_gives (h : r.unpackDouble = .ok v) : DataKind.double.Gives v := by
  unfold unpackDouble at h
  repeat' split at h
  all_goals cases h
  all_goals trivial

theorem unpackString_gives (h : r.unpackString = .ok v) : DataKind.string.Gives v := by
  unfold unpackString at h
  repeat' split at h
  all_goals cases h
  all_goals trivial

theorem unpack_gives {function : String} (h : r.unpack function kind = .ok v) : kind.Gives v := by
  cases kind with
  | int => exact unpackInt_gives h
  | double => exact unpackDouble_gives h
  | string => exact unpackString_gives h
  | strings => cases h
  | void =>
    cases h
    trivial

end Reply

namespace Eval

theorem answers_fault (l : Option Location) (kind : DataKind) (f : Fault) :
    Answers l kind (fault l f) := fun _ => .inr ⟨f, rfl⟩

theorem answers_unpack (l : Option Location) (r : Reply) (function : String) (kind : DataKind) :
    Answers l kind (ofExcept l (r.unpack function kind)) := by
  cases h : r.unpack function kind with
  | ok v => exact fun _ => .inl ⟨v, rfl, Reply.unpack_gives h⟩
  | error f => exact answers_fault l kind f

theorem verdict_drawPlot (world : World) (l : Option Location) (script : List String) (s : State) :
    (drawPlot world l script).verdict s = .ok () ∨
      ∃ f, (drawPlot world l script).verdict s = .error (.error ⟨f, l, []⟩) := by
  unfold drawPlot
  split
  · exact .inl rfl
  · exact .inr ⟨_, rfl⟩

theorem Answers.after_plot {l : Option Location} {kind : DataKind} {x : Eval Value}
    (h : Answers l kind x) (world : World) (script : List String) :
    Answers l kind (drawPlot world l script >>= fun _ => x) := by
  intro s
  rw [verdict_bind]
  obtain hplot | ⟨f, hplot⟩ := verdict_drawPlot world l script s
  · rw [hplot]
    exact h _
  · rw [hplot]
    exact .inr ⟨f, rfl⟩

end Eval

theorem Signature.answers_conclude (world : World) (l : Option Location) (sig : Signature)
    (outcome : Except Refusal Action) :
    (sig.conclude world l outcome).Answers l sig.result := by
  match outcome with
  | .error why => exact Eval.answers_fault l _ _
  | .ok (.reply r) => exact Eval.answers_unpack l r _ _
  | .ok (.plot script) => exact (Eval.answers_unpack l _ _ _).after_plot world script

section Call

variable (world : World) (l : Option Location) {sig : Signature}
  (invoke : World → List Argument → Except Refusal Action)

/-- A function is called with what has been packed. -/
theorem callBuiltin_of_packs (h : sig.pack vs = .ok as) :
    callBuiltin world l ⟨sig, invoke⟩ vs = sig.conclude world l (invoke world as) := by
  simp only [callBuiltin, h]
  rcases invoke world as with _ | (_ | _) <;> rfl

theorem callBuiltin_of_refused {f : SignatureFault} (h : sig.pack vs = .error f) :
    callBuiltin world l ⟨sig, invoke⟩ vs = Eval.fault l (.signature sig.name f) := by
  simp only [callBuiltin, h]

theorem answers_callBuiltin : (callBuiltin world l ⟨sig, invoke⟩ vs).Answers l sig.result := by
  cases h : sig.pack vs with
  | ok as =>
    rw [callBuiltin_of_packs world l invoke h]
    exact sig.answers_conclude world l _
  | error f =>
    rw [callBuiltin_of_refused world l invoke h]
    exact Eval.answers_fault l _ _

theorem callBuiltin_ofNumber (name : String) (result : DataKind)
    (f : Number → Except Refusal Number) (x : Number) :
    callBuiltin world l (.ofNumber name result f) [.number x] =
      Signature.conclude world l ⟨name, [.double], result⟩
        ((fun y => .reply (.number y)) <$> f x) := by
  have hpack : (⟨name, [.double], result⟩ : Signature).pack [.number x] = .ok [.double x] := rfl
  exact callBuiltin_of_packs world l _ hpack

theorem callBuiltin_function (name : String) (f : Number → Number) (x : Number) :
    callBuiltin world l (.function name f) [.number x] = pure (.number (f x)) := by
  rw [Builtin.function, callBuiltin_ofNumber]
  rfl

theorem callBuiltin_property (name : String) (p : Number → Bool) (x : Number) :
    callBuiltin world l (.property name p) [.number x] = pure (.number (.ofBool (p x))) := by
  rw [Builtin.property, callBuiltin_ofNumber]
  cases p x <;> rfl

end Call

/-- A call of a builtin function obeys the signature: values are packed just if they are as many as
the parameters take and fit them; a function receives one thing for each parameter, and is not
called for values that are not packed; and the call gives a value of the type of the result, or
stops with an error at its location. -/
theorem callBuiltin_obeys_signature (world : World) (l : Option Location) (sig : Signature)
    (vs : List Value) :
    ((∃ as, sig.pack vs = .ok as) ↔ Accepts sig.parameters vs) ∧
      (∀ as, sig.pack vs = .ok as →
        Packs sig.parameters vs as ∧ as.length = sig.parameters.length ∧ ∀ invoke,
          callBuiltin world l ⟨sig, invoke⟩ vs = sig.conclude world l (invoke world as)) ∧
      (∀ f, sig.pack vs = .error f → ∀ invoke,
        callBuiltin world l ⟨sig, invoke⟩ vs = Eval.fault l (.signature sig.name f)) ∧
      ∀ invoke, (callBuiltin world l ⟨sig, invoke⟩ vs).Answers l sig.result := by
  refine ⟨?_, fun as h => ?_, fun f h invoke => callBuiltin_of_refused world l invoke h,
    answers_callBuiltin world l⟩
  · simp only [Signature.pack_eq_ok]
    exact exists_packs_iff
  · have hpacks : Packs sig.parameters vs as := Signature.pack_eq_ok.mp h
    exact ⟨hpacks, hpacks.length_eq, fun invoke => callBuiltin_of_packs world l invoke h⟩

end KLang
