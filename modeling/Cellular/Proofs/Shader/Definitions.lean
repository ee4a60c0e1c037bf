import Cellular.Proofs.Shader.Checking

/-!
# The functions in front of the entry point

Every shader has functions that read the board and the fields of a cell, write the fields, and count
neighbours.  Each of them passes the check wherever what it calls is declared.

* `checks_cellAt` and `checks_wrapFunction` are the functions that are the same in all shaders.
* `checks_getter` and `checks_setter` are those of a field, for any spans that it lies in.
* `Supplied` is what the counting functions use, and `Supplied.checks_countFunction` checks them for
  every kernel.

None of these lemmas mentions a whole shader.  A function is checked behind any declarations that
have distinct names and offer what its code calls; what is declared besides makes no difference to
it.  So a change to one function, or to the order in which functions are emitted, leaves the others
alone.  The functions that differ from shader to shader are those of fields, which vary with the
spans, and those of kernels, which vary with the policy, the size and the value function.
-/

namespace Cellular

open Shader

namespace Shader

variable {g : Globals} {ctx : Context} {result : ValueType} {looping : Bool} {start : Nat}
  {locals : VarTypes}

/-! ## Rules in use

The check of a statement is a computation that can fail in several ways.  These lemmas are its rules
in the forms that the functions below need.
-/

lemma rank_int (n : Nat) : (Term.int n).rank = 1 := by
  rw [Term.rank, if_neg (by omega)]

/-- No declaration hides a name of the language. -/
lemma Globals.Sound.lookup_eq_none (hg : g.Sound) {name : String} (h : name ∈ languageNames) :
    g.lookup name = none :=
  lookup_eq_none_of_notMem fun hmem => hg.own name hmem h

/-- A call of a function of the language. -/
lemma type?_builtin (hg : g.Sound) {name : String} (hname : name ∈ ["texelFetch", "floor", "clamp"])
    (hshown : locals.lookup name = none) {args : List Term} {types : List ValueType} {a : ValueType}
    (hargs : Term.types? ⟨g, locals⟩ args = some types) (hresult : builtin? name types = some a) :
    (Term.call name args).type? ⟨g, locals⟩ = some a := by
  have hlanguage : name ∈ languageNames ∧ constructor? name = none := by
    simp only [List.mem_cons, List.not_mem_nil, or_false] at hname
    rcases hname with rfl | rfl | rfl <;> exact ⟨by decide, rfl⟩
  refine type?_call hargs ?_
  simp only [Context.call?, hlanguage.2, hshown, hg.lookup_eq_none hlanguage.1]
  exact hresult

/-- Statements that declare nothing. -/
lemma checkAll_keeps {codes : List Code}
    (h : ∀ c ∈ codes, c.check g result looping start locals = some locals) :
    Code.checkAll g result looping start codes locals = some locals := by
  induction codes with
  | nil => rfl
  | cons c codes ih =>
      rw [List.forall_mem_cons] at h
      rw [checkAll_cons h.1]
      exact ih h.2

/-- A function whose parameters are local and whose body passes the check. -/
lemma checks_of_checkAll {f : Function} (hparams : f.params.all (·.type.isLocal) = true)
    (hnodup : (f.params.map (·.name)).Nodup) {inner : VarTypes}
    (hbody : Code.checkAll g f.type.value false 0 f.body f.paramTypes = some inner) :
    f.checks g = true := by
  simp [Function.checks, hparams, hnodup, hbody]

/-! ## The board -/

/-- Reading a cell of the board. -/
lemma checks_cellAt (hg : g.Sound) (hboard : (boardName, .var .usampler2D false) ∈ g) :
    cellAt.checks g = true := by
  have hoffers : Context.Offers ⟨g, cellAt.paramTypes⟩ boardName (.var .usampler2D false) :=
    hg.offers hboard (by decide)
  have hplace : (Term.call "ivec2" [.name "x", .name "y"]).type? ⟨g, cellAt.paramTypes⟩
      = some (.vector .int 2) :=
    type?_construct rfl (types?_two (type?_name rfl) (type?_name rfl)) rfl
  have hfetch : (Term.call "texelFetch" [.name boardName, .call "ivec2" [.name "x", .name "y"],
      .int 0]).type? ⟨g, cellAt.paramTypes⟩ = some (.vector .uint 4) :=
    type?_builtin hg (by decide) rfl (types?_three (type?_name hoffers.var?) hplace rfl) rfl
  exact checks_of_checkAll rfl (by decide) (checkAll_one
    (check_result (type?_construct rfl (types?_one hfetch) rfl) (by decide)))

/-- Closing the board onto itself. -/
lemma checks_wrapFunction (hg : g.Sound) : wrapFunction.checks g = true := by
  have hfloat : ∀ x : String,
      Context.var? ⟨g, wrapFunction.paramTypes⟩ x = some (.scalar .int, true) →
        (Term.call "float" [.name x]).type? ⟨g, wrapFunction.paramTypes⟩ = some (.scalar .float) :=
    fun x hx => type?_construct rfl (types?_one (type?_name hx)) rfl
  have hquotient : (Term.op .div (.call "float" [.name "i"]) (.call "float" [.name "size"])).type?
      ⟨g, wrapFunction.paramTypes⟩ = some (.scalar .float) :=
    type?_tight (hfloat "i" rfl) (hfloat "size" rfl) rfl (by decide) (by decide)
  have hfloor : (Term.call "floor" [.op .div (.call "float" [.name "i"])
      (.call "float" [.name "size"])]).type? ⟨g, wrapFunction.paramTypes⟩ = some (.scalar .float) :=
    type?_builtin hg (by decide) rfl (types?_one hquotient) rfl
  have hint := type?_construct (f := "int") rfl (types?_one hfloor) rfl
  refine checks_of_checkAll rfl (by decide) (checkAll_one (check_result ?_ (by decide)))
  exact type?_binary (type?_name rfl)
    (type?_tight (type?_name rfl) hint rfl (by decide) (by decide)) (by decide) (by decide) rfl

/-! ## Accessors

A number may have any number of spans, and its accessors are checked by induction on them.  Every
statement leaves the variables as they were, so the order of spans does not matter.
-/

section Accessors

variable {s : Span}

lemma type?_byte {writable : Bool} (hcell : ctx.var? cellName = some (.vector .int 4, writable))
    (hs : s.InRecord) : (Term.component cellTerm s.byte).type? ctx = some (.scalar .int) :=
  type?_component (type?_name hcell) (by decide) (Nat.lt_succ_of_le hs.byte_le)

/-- A shift of an integer by a fixed number of bits. -/
lemma type?_shift {op : Op} (hop : op = .shiftLeft ∨ op = .shiftRight) {t : Term}
    (ht : t.type? ctx = some (.scalar .int)) (hrank : t.rank ≤ 3) (n : Nat) :
    (Term.binary op t (.int n)).type? ctx = some (.scalar .int) := by
  rcases hop with rfl | rfl <;> exact type?_tight ht rfl rfl hrank (by simp [rank_int])

/-- The bits of a span are an integer. -/
lemma type?_spanTerm {writable : Bool} (hcell : ctx.var? cellName = some (.vector .int 4, writable))
    (hs : s.InRecord) : (spanTerm s).type? ctx = some (.scalar .int) := by
  have hshift : (Term.binary .shiftRight (.component cellTerm s.byte) (.int s.low)).type? ctx
      = some (.scalar .int) :=
    type?_shift (.inr rfl) (type?_byte hcell hs) (by simp [Term.rank]) s.low
  exact type?_tight (type?_paren hshift) rfl rfl (by simp [Term.rank]) (by simp [Term.rank, maskTerm])

/-- Writing an integer into a span. -/
lemma check_spanUpdate (hcell : Context.var? ⟨g, locals⟩ cellName = some (.vector .int 4, true))
    (hs : s.InRecord) {mask value : Term} (hmask : mask.type? ⟨g, locals⟩ = some (.scalar .int))
    (hrank : mask.rank = 1) (hvalue : value.type? ⟨g, locals⟩ = some (.scalar .int)) :
    (spanUpdate s mask value).check g result looping start locals = some locals := by
  have hbyte := type?_byte hcell hs
  have hothers : (Term.unary .complement (.paren (.binary .shiftLeft mask (.int s.low)))).type?
      ⟨g, locals⟩ = some (.scalar .int) :=
    type?_unary (type?_paren (type?_shift (.inl rfl) hmask (by omega) s.low)) (by simp [Term.rank])
      rfl
  have hkept : (Term.binary .bitAnd (.component cellTerm s.byte) (.unary .complement
      (.paren (.binary .shiftLeft mask (.int s.low))))).type? ⟨g, locals⟩ = some (.scalar .int) :=
    type?_tight hbyte hothers rfl (by simp [Term.rank]) (by simp [Term.rank])
  have hput : (Term.binary .shiftLeft (.paren value) (.int s.low)).type? ⟨g, locals⟩
      = some (.scalar .int) :=
    type?_shift (.inl rfl) (type?_paren hvalue) (by simp [Term.rank]) s.low
  refine Shader.check_assign hbyte (by simp [Term.writable, cellTerm, hcell]) ?_ rfl
  exact type?_tight (type?_paren hkept) (type?_paren hput) rfl (by simp [Term.rank])
    (by simp [Term.rank])

/-- Reading a number adds one span after the other to a variable. -/
lemma checkAll_numberGetter {spans : List Span} (hspans : ∀ s ∈ spans, s.InRecord) :
    ∃ inner, Code.checkAll g (.scalar .int) false 0 (numberGetter spans)
      [(cellName, .vector .int 4)] = some inner := by
  rw [numberGetter.eq_def]
  split
  · next s =>
      rw [List.forall_mem_singleton] at hspans
      exact ⟨_, checkAll_one (check_result (type?_spanTerm rfl hspans) (by decide))⟩
  · have hadd : ∀ s ∈ spans, (Code.set (.name "val") (.binary .bitOr
        (.paren (.binary .shiftLeft (.name "val") (.int s.length))) (.paren (spanTerm s)))).check g
        (.scalar .int) false 0 [("val", .scalar .int), (cellName, .vector .int 4)]
          = some [("val", .scalar .int), (cellName, .vector .int 4)] := by
      intro s hs
      have hshift : (Term.binary .shiftLeft (.name "val") (.int s.length)).type?
          ⟨g, [("val", .scalar .int), (cellName, .vector .int 4)]⟩ = some (.scalar .int) :=
        type?_shift (.inl rfl) (type?_name rfl) (by simp [Term.rank]) s.length
      refine Shader.check_assign (type?_name rfl) rfl ?_ rfl
      exact type?_tight (type?_paren hshift) (type?_paren (type?_spanTerm rfl (hspans s hs))) rfl
        (by simp [Term.rank]) (by simp [Term.rank])
    refine ⟨[("val", .scalar .int), (cellName, .vector .int 4)], ?_⟩
    refine (checkAll_cons (check_declare rfl rfl (by decide))).trans ?_
    refine (checkAll_append (checkAll_keeps (List.forall_mem_map.mpr hadd))).trans ?_
    exact checkAll_one (check_result (type?_name rfl) (by decide))

/-- Writing a number takes as many of its bits as each span has. -/
lemma check_numberSetter (hcell : Context.var? ⟨g, locals⟩ cellName = some (.vector .int 4, true))
    (hval : Context.var? ⟨g, locals⟩ "val" = some (.scalar .int, true)) :
    ∀ {spans : List Span}, (∀ s ∈ spans, s.InRecord) → ∀ c ∈ numberSetter spans,
      c.check g result looping start locals = some locals
  | [], _, c, hc => by simp [numberSetter] at hc
  | s :: more, hspans, c, hc => by
      rw [List.forall_mem_cons] at hspans
      simp only [numberSetter, List.mem_append, List.mem_cons] at hc
      rcases hc with (rfl | hc) | hc
      · have hvalue : (Term.binary .bitAnd (.name "val") (maskTerm s)).type? ⟨g, locals⟩
            = some (.scalar .int) :=
          type?_tight (type?_name hval) rfl rfl (by simp [Term.rank]) (by simp [Term.rank, maskTerm])
        exact check_spanUpdate hcell hspans.1 rfl rfl hvalue
      · split_ifs at hc with hmore
        · cases hc
        · rw [List.mem_singleton.mp hc]
          exact Shader.check_assign (type?_name hval) (by simp [Term.writable, hval])
            (type?_shift (.inr rfl) (type?_name hval) (by simp [Term.rank]) s.length) rfl
      · exact check_numberSetter hcell hval hspans.2 c hc

/-- **Reading a field passes the check.** -/
lemma checks_getter {d : Field} (hd : d.Placed) : (getter d).checks g = true := by
  suffices hbody : ∃ inner, Code.checkAll g (fieldType d).value false 0 (getter d).body
      [(cellName, .vector .int 4)] = some inner by
    obtain ⟨inner, hinner⟩ := hbody
    exact checks_of_checkAll rfl (by simp [getter]) hinner
  rcases hd.kind with hflag | hnumber
  · obtain ⟨s, hspans, -⟩ := hd.flag_span hflag
    have hs : s.InRecord := hd.inRecord s (by simp [hspans])
    have hbit : (Term.op .ne (.paren (spanTerm s)) (.int 0)).type? ⟨g, [(cellName, .vector .int 4)]⟩
        = some (.scalar .bool) :=
      type?_tight (type?_paren (type?_spanTerm rfl hs)) rfl rfl (by simp [Term.rank])
        (by simp [Term.rank])
    simp only [fieldType, getter, hflag, if_true, hspans, List.headD_cons]
    exact ⟨_, checkAll_one (check_result hbit (by decide))⟩
  · have hkind : d.kind ≠ .flag := by simp [hnumber]
    simp only [fieldType, getter, hkind, if_false]
    exact checkAll_numberGetter hd.inRecord

/-- **Writing a field passes the check.** -/
lemma checks_setter {d : Field} (hd : d.Placed) : (setter d).checks g = true := by
  have hparams : (setter d).params.all (·.type.isLocal) = true := by
    simp only [setter, fieldType]
    split_ifs <;> rfl
  suffices hbody : Code.checkAll g .void false 0 (setter d).body (setter d).paramTypes
      = some (setter d).paramTypes from checks_of_checkAll hparams (by simp [setter, cellName]) hbody
  apply checkAll_keeps
  intro c hc
  rcases hd.kind with hflag | hnumber
  · obtain ⟨s, hspans, -⟩ := hd.flag_span hflag
    have hs : s.InRecord := hd.inRecord s (by simp [hspans])
    have hlocals : (setter d).paramTypes = [("val", .scalar .bool), (cellName, .vector .int 4)] := by
      simp [setter, Function.paramTypes, fieldType, hflag, GType.value]
    simp only [setter, hflag, if_true, hspans, List.headD_cons, flagSetter, List.mem_singleton] at hc
    rw [hc, hlocals]
    exact check_spanUpdate rfl hs rfl rfl (type?_ternary (type?_name rfl) rfl rfl (by decide))
  · have hkind : d.kind ≠ .flag := by simp [hnumber]
    have hlocals : (setter d).paramTypes = [("val", .scalar .int), (cellName, .vector .int 4)] := by
      simp [setter, Function.paramTypes, fieldType, hkind, GType.value]
    simp only [setter, hkind, if_false] at hc
    rw [hlocals]
    exact check_numberSetter rfl rfl (by simpa using hd.inRecord) c hc

end Accessors

/-! ## Counting neighbours

A counting function is two loops around the code of one place.  The value function of its kernel is
code of the rule language, in a scope that has the cell and nothing else.
-/

/-- What the functions of a shader may use: the variables outside of all functions, and the functions
in front of them. -/
structure Supplied (g : Globals) (l : Layout) (ks : KernelSet) : Prop where
  sound : g.Sound
  weights : (weightsName, .var .sampler2DArray false) ∈ g
  size : (boardSizeName, .var (.vector .int 2) false) ∈ g
  coord : (coordName, .var (.vector .int 2) true) ∈ g
  cellAt : (cellAtName, cellAt.entity) ∈ g
  wrap : (∃ k ∈ ks.kernels, k.overflow = .wrap) → (wrapName, wrapFunction.entity) ∈ g
  getters : ∀ d ∈ l.fields, (getterName d.name, (getter d).entity) ∈ g
  setters : ∀ d ∈ l.fields, (setterName d.name, (setter d).entity) ∈ g

/-- The variables of a counting function at a visited cell. -/
def visitTypes : VarTypes :=
  [("cy", .scalar .int), ("cx", .scalar .int), ("iy", .scalar .int), ("ix", .scalar .int),
    ("count", .scalar .float)]

/-- What a counting function does at a visited cell. -/
def visitCode (k : Kernel) (value : Term) : List Code :=
  let start (c axis counter : String) (offset : Nat) : Code :=
    .declare .int c (.op .sub (.op .add (.member (.name coordName) axis) (.name counter))
      (.int offset))
  let weight : Term := .member (.call "texelFetch" [.name weightsName,
    .call "ivec3" [.name "ix", .name "iy", .int k.index], .int 0]) "x"
  [start "cx" "x" "ix" k.offsetX, start "cy" "y" "iy" k.offsetY] ++ overflowCode k.overflow ++
    [.declare .float "mult" weight,
     .declare .ivec4 cellName (.call cellAtName [.name "cx", .name "cy"]),
     .declare .float "value" (.call "float" [value]),
     .assign (.name "count") (.update .add) (.op .mul (.name "mult") (.name "value"))]

lemma body_countFunction (k : Kernel) (value : Term) :
    (countFunction k value).body =
      [.declare .float "count" (.float "0.0"),
       .loop "ix" k.width [.loop "iy" k.height (visitCode k value)],
       .result (match k.result with
        | .float => .name "count"
        | .int => .call "int" [.name "count"])] := rfl

section Counting

variable {l : Layout} {ks : KernelSet} {k : Kernel} {axis : String}

/-- A coordinate of a pair of integers outside of all functions. -/
lemma type?_axis {name : String} {writable : Bool}
    (hname : ctx.Offers name (.var (.vector .int 2) writable)) (haxis : axis = "x" ∨ axis = "y") :
    (Term.member (.name name) axis).type? ctx = some (.scalar .int) := by
  refine type?_member (type?_name hname.var?) (by simp [Term.rank]) ?_
  rcases haxis with rfl | rfl <;> rfl

/-- A coordinate of a visited cell, before the policy of the kernel. -/
lemma check_coordinate (hcoord : Context.Offers ⟨g, locals⟩ coordName (.var (.vector .int 2) true))
    (haxis : axis = "x" ∨ axis = "y") {counter : String}
    (hcounter : Context.var? ⟨g, locals⟩ counter = some (.scalar .int, true)) (offset : Nat)
    {c : String} (hnew : c ∉ (locals.take (locals.length - start)).map Prod.fst) :
    (Code.declare .int c (.op .sub (.op .add (.member (.name coordName) axis) (.name counter))
      (.int offset))).check g result looping start locals = some ((c, .scalar .int) :: locals) := by
  have hsum : (Term.op .add (.member (.name coordName) axis) (.name counter)).type? ⟨g, locals⟩
      = some (.scalar .int) :=
    type?_tight (type?_axis hcoord haxis) (type?_name hcounter) rfl (by simp [Term.rank])
      (by simp [Term.rank])
  refine check_declare ?_ rfl hnew
  exact type?_binary hsum rfl (by simp [Term.op, Term.rank, Op.rank])
    (by simp [rank_int, Op.rank]) rfl

/-- The policy of a kernel moves the coordinates of a visited cell, or leaves it out. -/
lemma Supplied.checkAll_overflowCode (h : Supplied g l ks) (hk : k ∈ ks.kernels) :
    Code.checkAll g result true start (overflowCode k.overflow) visitTypes = some visitTypes := by
  have hsize : ∀ {axis : String}, axis = "x" ∨ axis = "y" →
      (sizeTerm axis).type? ⟨g, visitTypes⟩ = some (.scalar .int) := fun haxis =>
    type?_axis (h.sound.offers h.size (by decide)) haxis
  cases hoverflow : k.overflow with
  | wrap =>
      have hwrap : Context.Offers ⟨g, visitTypes⟩ wrapName wrapFunction.entity :=
        h.sound.offers (h.wrap ⟨k, hk, hoverflow⟩) (by decide)
      have honto : ∀ {c axis : String}, Context.var? ⟨g, visitTypes⟩ c = some (.scalar .int, true) →
          axis = "x" ∨ axis = "y" →
          (Code.set (.name c) (.call wrapName [.name c, sizeTerm axis])).check g result true start
            visitTypes = some visitTypes := fun {c axis} hc haxis =>
        Shader.check_assign (type?_name hc) (by simp [Term.writable, hc])
          (type?_call (types?_two (type?_name hc) (hsize haxis)) (hwrap.call? rfl)) rfl
      apply checkAll_keeps
      simp only [overflowCode, List.forall_mem_cons]
      exact ⟨honto rfl (.inl rfl), honto rfl (.inr rfl), by simp⟩
  | border =>
      have honto : ∀ {c axis : String}, Context.var? ⟨g, visitTypes⟩ c = some (.scalar .int, true) →
          axis = "x" ∨ axis = "y" →
          (Code.set (.name c) (.call "clamp" [.name c, .int 0,
            .op .sub (sizeTerm axis) (.int 1)])).check g result true start visitTypes
              = some visitTypes := by
        intro c axis hc haxis
        have hlast : (Term.op .sub (sizeTerm axis) (.int 1)).type? ⟨g, visitTypes⟩
            = some (.scalar .int) :=
          type?_tight (hsize haxis) rfl rfl (by simp [sizeTerm, Term.rank]) (by simp [Term.rank])
        exact Shader.check_assign (type?_name hc) (by simp [Term.writable, hc])
          (type?_builtin h.sound (by decide) rfl (types?_three (type?_name hc) rfl hlast) rfl) rfl
      apply checkAll_keeps
      simp only [overflowCode, List.forall_mem_cons]
      exact ⟨honto rfl (.inl rfl), honto rfl (.inr rfl), by simp⟩
  | zero =>
      have hbelow : ∀ {c : String}, Context.var? ⟨g, visitTypes⟩ c = some (.scalar .int, true) →
          (Term.op .lt (.name c) (.int 0)).type? ⟨g, visitTypes⟩ = some (.scalar .bool) := fun hc =>
        type?_tight (type?_name hc) rfl rfl (by simp [Term.rank]) (by simp [Term.rank])
      have habove : ∀ {c axis : String}, Context.var? ⟨g, visitTypes⟩ c = some (.scalar .int, true) →
          axis = "x" ∨ axis = "y" →
          (Term.op .ge (.name c) (sizeTerm axis)).type? ⟨g, visitTypes⟩ = some (.scalar .bool) :=
        fun hc haxis => type?_tight (type?_name hc) (hsize haxis) rfl (by simp [Term.rank])
          (by simp [sizeTerm, Term.rank])
      have hx : (Term.op .or (.op .lt (.name "cx") (.int 0)) (.op .ge (.name "cx")
          (sizeTerm "x"))).type? ⟨g, visitTypes⟩ = some (.scalar .bool) :=
        type?_binary (hbelow rfl) (habove rfl (.inl rfl)) (by decide) (by decide) rfl
      refine checkAll_one (check_when ?_ rfl)
      exact type?_binary (type?_binary hx (hbelow rfl) (by decide) (by decide) rfl)
        (habove rfl (.inr rfl)) (by decide) (by decide) rfl

/-- Where only a cell is visible, the code of a value function sees that cell. -/
lemma Supplied.resolves_visit (h : Supplied g l ks) (hks : ks.Compiled l.cellType) :
    Resolves ⟨g, (cellName, .vector .int 4) :: ("mult", .scalar .float) :: visitTypes⟩ l ks
      (Scope.builtin [] cellName l.cellType) where
  var {name b slot} hfind hassign := by
    obtain ⟨hb, -⟩ := mem_of_find? hfind
    rw [List.mem_singleton.mp hb] at hassign
    cases hassign
  count {k b slot} hk hfind _ := by
    obtain ⟨hb, hname⟩ := mem_of_find? hfind
    rw [List.mem_singleton.mp hb] at hname
    exact absurd hname.symm (hks.checked k hk).name_ne_cell
  cell {b slot} hfind _ := by
    obtain ⟨hb, -⟩ := mem_of_find? hfind
    rw [List.mem_singleton.mp hb]
    exact ⟨rfl, rfl⟩
  prev {b slot} hfind _ := by
    obtain ⟨hb, hname⟩ := mem_of_find? hfind
    rw [List.mem_singleton.mp hb] at hname
    exact absurd (show cellName = prevName from hname) (by decide)
  getters d hd := by
    refine h.sound.offers (h.getters d hd) ?_
    have hstem : ∀ name ∈ ["cell", "mult", "cy", "cx", "iy", "ix", "count"],
        ¬ "get_cell_state_".toList <+: name.toList := by decide
    intro hmem
    exact append_ne (hstem _ hmem) d.name rfl

/-- The value of a visited cell is a number or a truth value, so it can be turned into a float. -/
lemma constructs_float (t : Ty) : (ValueType.scalar .float).constructs [t.valueType] = true := by
  cases t <;> rfl

/-- Counting one cell: its weight times its value. -/
lemma Supplied.checkAll_visitCode (h : Supplied g l ks) (hks : ks.Compiled l.cellType)
    (hk : k ∈ ks.kernels) {value : Term} (hvalue : k.value.toTerm ks = .ok value) :
    Code.checkAll g result true 2 (visitCode k value)
      [("iy", .scalar .int), ("ix", .scalar .int), ("count", .scalar .float)]
      = some (("value", .scalar .float) :: (cellName, .vector .int 4) :: ("mult", .scalar .float) ::
        visitTypes) := by
  have hchecked := hks.checked k hk
  have hweights : Context.Offers ⟨g, visitTypes⟩ weightsName (.var .sampler2DArray false) :=
    h.sound.offers h.weights (by decide)
  have hplace : (Term.call "ivec3" [.name "ix", .name "iy", .int k.index]).type? ⟨g, visitTypes⟩
      = some (.vector .int 3) :=
    type?_construct rfl (types?_three (type?_name rfl) (type?_name rfl) rfl) rfl
  have hweight : (Term.call "texelFetch" [.name weightsName,
      .call "ivec3" [.name "ix", .name "iy", .int k.index], .int 0]).type? ⟨g, visitTypes⟩
      = some (.vector .float 4) :=
    type?_builtin h.sound (by decide) rfl (types?_three (type?_name hweights.var?) hplace rfl) rfl
  have hcellAt : Context.Offers ⟨g, ("mult", .scalar .float) :: visitTypes⟩ cellAtName
      Shader.cellAt.entity := h.sound.offers h.cellAt (by decide)
  have htyped := Expr.type?_toTerm (h.resolves_visit hks) hchecked.typed hchecked.worded hvalue
  have hfloat : (Term.call "float" [value]).type? ⟨g, (cellName, .vector .int 4) ::
      ("mult", .scalar .float) :: visitTypes⟩ = some (.scalar .float) :=
    type?_construct rfl (types?_one htyped) (constructs_float k.value.type)
  refine (checkAll_cons (check_coordinate (h.sound.offers h.coord (by decide)) (.inl rfl) rfl
    k.offsetX (by decide))).trans ?_
  refine (checkAll_cons (check_coordinate (h.sound.offers h.coord (by decide)) (.inr rfl) rfl
    k.offsetY (by decide))).trans ?_
  refine (checkAll_append (h.checkAll_overflowCode hk)).trans ?_
  refine (checkAll_cons (check_declare (type?_member hweight (by simp [Term.rank]) rfl) rfl
    (by decide))).trans ?_
  refine (checkAll_cons (check_declare (type?_call (types?_two (type?_name rfl) (type?_name rfl))
    (hcellAt.call? rfl)) rfl (by decide))).trans ?_
  refine (checkAll_cons (check_declare hfloat rfl (by decide))).trans ?_
  exact checkAll_one (Shader.check_assign (type?_name rfl) rfl
    (type?_tight (type?_name rfl) (type?_name rfl) rfl (by simp [Term.rank]) (by simp [Term.rank]))
    rfl)

/-- **Counting the neighbours of a kernel passes the check.** -/
lemma Supplied.checks_countFunction (h : Supplied g l ks) (hks : ks.Compiled l.cellType)
    (hk : k ∈ ks.kernels) {value : Term} (hvalue : k.value.toTerm ks = .ok value) :
    (countFunction k value).checks g = true := by
  have hresult : (Term.type? ⟨g, [("count", .scalar .float)]⟩ (match k.result with
      | .float => .name "count"
      | .int => .call "int" [.name "count"])) = some k.result.toShader.value := by
    cases k.result with
    | int => exact type?_construct rfl (types?_one (type?_name rfl)) rfl
    | float => exact type?_name rfl
  have hvoid : k.result.toShader.value ≠ .void := by
    cases k.result <;> decide
  suffices hbody : Code.checkAll g k.result.toShader.value false 0 (countFunction k value).body []
      = some [("count", .scalar .float)] from checks_of_checkAll rfl (by simp [countFunction]) hbody
  rw [body_countFunction]
  refine (checkAll_cons (check_declare rfl rfl (by decide))).trans ?_
  refine (checkAll_cons (check_loop (checkAll_one (check_loop
    (h.checkAll_visitCode hks hk hvalue))))).trans ?_
  exact checkAll_one (check_result hresult hvoid)

end Counting

end Shader

end Cellular
