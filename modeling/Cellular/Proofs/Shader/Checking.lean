import Cellular.Proofs.Shader.Typing

/-!
# The code of a rule keeps the static rules

The code of a well-typed rule passes the check of the shading language.  The scopes of a rule are
those of its code: `scopeTypes` are the variables of the shader where the rule is in a scope `s`, those
of the rule in front of those that the entry point declares for it.

* `Furnished` is what the code of a rule uses, and `Furnished.resolves` gives the names that its
  expressions read.
* `Furnished.check_assign`: an assignment, to a variable or through a setter.
* `Stmt.check_toCode`: a statement passes the check and leaves the variables that the rule then has.

The scope of a rule has more structure than that of a shader: a binding knows its slot, and the
block that it belongs to.  What the check of a declaration asks is whether the name is new among the
variables since the last brace, and `Frame.OpensAt` says that these are the bindings since the last
block.  The induction carries it down into blocks and branches.

A name of the rule never collides with one of the entry point, although they share a scope there,
because emitted names begin with stems; that is also why a function is never hidden by a variable.
-/

namespace Cellular

open Shader

/-! ## Variables of the entry point

The two languages look names up in the same way, the innermost first.  The variables of a rule come
before those of the entry point, which a rule reads under other names.
-/

/-- The variables of the entry point that a rule uses. -/
def mainTypes (l : Layout) (ks : KernelSet) : VarTypes :=
  (l.fields.map fun d => (prevLocal d.name, (fieldType d).value)).reverse ++
    (cellName, .vector .int 4) ::
      (ks.kernels.map fun k => (countLocal k.name, k.result.toShader.value)).reverse

/-- The variables of a rule that are visible in a scope. -/
def userTypes (s : Scope) : VarTypes :=
  (s.filter (·.assignable)).map fun b => (userVar b.name, b.type.valueType)

/-- The variables that the code of a rule sees: those of the rule, then those of the entry point. -/
def scopeTypes (l : Layout) (ks : KernelSet) (s : Scope) : VarTypes := userTypes s ++ mainTypes l ks

section

variable {l : Layout} {ks : KernelSet} {s : Scope}

lemma map_fst_mainTypes : (mainTypes l ks).map Prod.fst = mainNames l ks := by
  simp [mainTypes, mainNames, Function.comp_def]

lemma map_fst_userTypes : (userTypes s).map Prod.fst = Frame.userNames s := by
  simp [userTypes, Frame.userNames, Function.comp_def]

lemma map_fst_scopeTypes : (scopeTypes l ks s).map Prod.fst = Frame.shaderNames l ks s := by
  rw [scopeTypes, Frame.shaderNames, List.map_append, map_fst_userTypes, map_fst_mainTypes]

lemma length_scopeTypes : (scopeTypes l ks s).length = (Frame.shaderNames l ks s).length := by
  rw [← map_fst_scopeTypes, List.length_map]

/-- A name resolves to the innermost variable, as it does in the rule. -/
lemma lookup_userTypes {name : String} {b : Binding} {slot : Slot}
    (h : s.find? name = some (b, slot)) (hb : b.assignable = true) :
    (userTypes s).lookup (userVar name) = some b.type.valueType := by
  induction s with
  | nil => simp [Scope.find?] at h
  | cons c below ih =>
      rw [Scope.find?] at h
      split_ifs at h with hname
      · obtain ⟨rfl, rfl⟩ := Prod.mk.inj (Option.some.inj h)
        simp [userTypes, hb, hname]
      · have hne : (userVar name == userVar c.name) = false := by simpa using Ne.symm hname
        have ih := ih h
        cases hc : c.assignable with
        | true => simpa [userTypes, hc, List.lookup_cons, hne] using ih
        | false => simpa [userTypes, hc] using ih

/-- The variables of the rule hide none of the entry point. -/
lemma lookup_scopeTypes_main (hnames : (mainNames l ks).Nodup) {name : String} {t : ValueType}
    (hmem : (name, t) ∈ mainTypes l ks) : (scopeTypes l ks s).lookup name = some t := by
  have hmain : name ∈ mainNames l ks := by
    rw [← map_fst_mainTypes]
    exact List.mem_map_of_mem (f := Prod.fst) hmem
  have huser : name ∉ (userTypes s).map Prod.fst := by
    rw [map_fst_userTypes]
    intro hname
    obtain ⟨b, -, rfl⟩ := List.mem_map.mp hname
    exact userVar_notMem_mainNames l ks b.name hmain
  rw [scopeTypes, List.lookup_append, lookup_eq_none_of_notMem huser, Option.none_or]
  exact lookup_of_mem_nodup (by rwa [map_fst_mainTypes]) hmem

/-- The stems of the variables that the code of a rule sees. -/
def Shader.localStems : List String := ["user_var_", "cell_state_", "neighbour_count_"]

/-- A name with none of their stems is none of these variables. -/
lemma notMem_shaderNames {name : String} (hcell : name ≠ cellName)
    (hstems : ∀ stem ∈ localStems, ¬ stem.toList <+: name.toList) :
    name ∉ Frame.shaderNames l ks s := by
  have hne : ∀ stem ∈ localStems, ∀ a, name ≠ stem ++ a := fun stem hstem a =>
    (append_ne (hstems stem hstem) a).symm
  simp only [Frame.shaderNames, Frame.userNames, mainNames, List.mem_append, List.mem_map,
    List.mem_reverse, List.mem_cons, not_or, not_exists, not_and]
  refine ⟨fun b _ => ?_, fun d _ => ?_, hcell, fun k _ => ?_⟩
  · exact (hne "user_var_" (by decide) b.name).symm
  · exact (hne "cell_state_" (by decide) d.name).symm
  · exact (hne "neighbour_count_" (by decide) k.name).symm

lemma append_notMem_shaderNames {stem : String} (hcell : ¬ stem.toList <+: cellName.toList)
    (hstems : ∀ other ∈ localStems, Diverge other stem) (a : String) :
    stem ++ a ∉ Frame.shaderNames l ks s :=
  notMem_shaderNames (append_ne hcell a) fun other hother => not_prefix_append (hstems other hother) a

end

/-- What the code of a rule needs: the accessors of all fields are defined, and the variables of the
entry point have different names. -/
structure Furnished (g : Globals) (l : Layout) (ks : KernelSet) : Prop where
  sound : g.Sound
  getters : ∀ d ∈ l.fields, (getterName d.name, (getter d).entity) ∈ g
  setters : ∀ d ∈ l.fields, (setterName d.name, (setter d).entity) ∈ g
  names : (mainNames l ks).Nodup
  kernels : ks.Compiled l.cellType

/-- All read-only names of a scope are those that every rule sees. -/
def Scope.Over (root s : Scope) : Prop := ∀ b ∈ s, b.assignable = false → b ∈ root

section

variable {g : Globals} {l : Layout} {ks : KernelSet} {s : Scope}

lemma mem_of_find? {name : String} {b : Binding} {slot : Slot}
    (h : s.find? name = some (b, slot)) : b ∈ s ∧ b.name = name := by
  obtain ⟨inner, outer, rfl, -, hname, -⟩ := Scope.find?_eq_some_iff.mp h
  exact ⟨by simp, hname⟩

/-- A read-only name that is no kernel is a cell. -/
lemma Furnished.cell_type (h : Furnished g l ks) (hs : (rootScope l ks).Over s) {b : Binding}
    (hb : b ∈ s) (hassign : b.assignable = false) (hname : b.name = cellName ∨ b.name = prevName) :
    b.type = l.cellType := by
  rcases (mem_rootScope (hs b hb hassign)).2 with ⟨-, htype⟩ | ⟨k, hk, hkname, -⟩
  · exact htype
  · have hchecked := h.kernels.checked k hk
    rw [hkname] at hname
    exact absurd hname (by simp [hchecked.name_ne_cell, hchecked.name_ne_prev])

lemma Furnished.resolves (h : Furnished g l ks) (hs : (rootScope l ks).Over s) :
    Resolves ⟨g, scopeTypes l ks s⟩ l ks s where
  var hfind hassign := by
    refine Context.var?_local ?_
    rw [scopeTypes, List.lookup_append, lookup_userTypes hfind hassign]
    rfl
  count {k b slot} hk hfind hassign := by
    obtain ⟨hb, hname⟩ := mem_of_find? hfind
    refine ⟨?_, Context.var?_local (lookup_scopeTypes_main h.names ?_)⟩
    · have hchecked := h.kernels.checked k hk
      rcases (mem_rootScope (hs b hb hassign)).2 with ⟨hcell, -⟩ | ⟨k', hk', hname', htype⟩
      · rw [hname] at hcell
        exact absurd hcell (by simp [hchecked.name_ne_cell, hchecked.name_ne_prev])
      · have hsame : k'.name = k.name := hname'.symm.trans hname
        rw [htype, List.inj_on_of_nodup_map h.kernels.names_nodup hk' hk hsame]
    · refine List.mem_append_right _ (List.mem_cons_of_mem _ (List.mem_reverse.mpr ?_))
      exact List.mem_map.mpr ⟨k, hk, rfl⟩
  cell {b slot} hfind hassign := by
    obtain ⟨hb, hname⟩ := mem_of_find? hfind
    exact ⟨h.cell_type hs hb hassign (.inl hname), Context.var?_local (lookup_scopeTypes_main h.names
      (List.mem_append_right _ List.mem_cons_self))⟩
  prev {b slot} hfind hassign := by
    obtain ⟨hb, hname⟩ := mem_of_find? hfind
    refine ⟨h.cell_type hs hb hassign (.inr hname), fun d hd => ?_⟩
    refine Context.var?_local (lookup_scopeTypes_main h.names (List.mem_append_left _ ?_))
    exact List.mem_reverse.mpr (List.mem_map.mpr ⟨d, hd, rfl⟩)
  getters d hd := by
    refine h.sound.offers (h.getters d hd) ?_
    rw [map_fst_scopeTypes]
    exact append_notMem_shaderNames (by decide) (by decide) d.name

/-! ## Statements

Most statements of a rule become one statement of the shader.  An assignment to a field becomes a
call, and where it combines, the old value is read by another call inside its argument.
-/

variable {result : ValueType} {looping : Bool} {start : Nat}

/-- A branch has braces of its own, so a block inside it does not need its own. -/
lemma Shader.checkAll_branchBody {locals inner : VarTypes} {c : Code}
    (h : c.check g result looping locals.length locals = some inner) :
    ∃ last, Code.checkAll g result looping locals.length c.branchBody locals = some last := by
  have hone := checkAll_one h
  cases c with
  | block body =>
      rw [Code.check, Option.bind_eq_bind, Option.bind_eq_some_iff] at h
      obtain ⟨last, hlast, -⟩ := h
      exact ⟨last, hlast⟩
  | declare | assign | call | when | branch | loop | skip | result | comment => exact ⟨inner, hone⟩

/-- The stored value of a setter: the assigned one, or a combination of it with the old one. -/
lemma Furnished.check_setter (h : Furnished g l ks) {locals : VarTypes} {d : Field}
    (hd : d ∈ l.fields) (hhidden : setterName d.name ∉ locals.map Prod.fst) {x : String}
    (hx : Context.var? ⟨g, locals⟩ x = some (.vector .int 4, true)) {stored : Term}
    (hstored : stored.type? ⟨g, locals⟩ = some (fieldType d).value) :
    (Code.call (.call (setterName d.name) [.name x, stored])).check g result looping start locals
      = some locals := by
  have hcall : Context.call? ⟨g, locals⟩ (setterName d.name) [.vector .int 4, (fieldType d).value]
      ([.name x, stored].map (Term.writable ⟨g, locals⟩)) = some .void :=
    (h.sound.offers (h.setters d hd) hhidden).call? (by simp [setter, Term.writable, hx])
  exact check_call (type?_call (types?_two (type?_name hx) hstored) hcall)

/-- The combination of a field with a value. -/
lemma Shader.type?_combined {ctx : Context} {d : Field} {value : Term} {bop : BinaryOp}
    (hbop : bop.Typed d.type d.type)
    (hget : (Term.call (getterName d.name) [cellTerm]).type? ctx = some (fieldType d).value)
    (hvalue : value.type? ctx = some (fieldType d).value) (hrank : value.rank = 1) :
    (Term.paren (.op bop (.call (getterName d.name) [cellTerm]) value)).type? ctx
      = some (fieldType d).value := by
  have hop := hbop.type?
  rw [Field.valueType_type] at hop
  exact type?_paren (type?_tight hget hvalue hop (by simp [Term.rank]) (by omega))

/-- An assignment of a value of the right type. -/
lemma Furnished.check_assign (h : Furnished g l ks) (hs : (rootScope l ks).Over s) {pos : Position}
    {target : Path} {op : AssignOp} {value : Term} {c : Code} {t u : Ty}
    (htype : target.HasType s t) (htarget : target.Assignable s) (hop : op.Spelled)
    (htyped : op.Typed t u) (hvalue : value.type? ⟨g, scopeTypes l ks s⟩ = some u.valueType)
    (hrank : value.rank = 1) (hc : assignCode pos target op value = .ok c) :
    c.check g result looping start (scopeTypes l ks s) = some (scopeTypes l ks s) := by
  have hresolves := h.resolves hs
  obtain ⟨root, rest⟩ := target
  obtain ⟨b, slot, hfind, hfollow⟩ := htype
  rw [assignCode] at hc
  split at hc
  · rename_i hrest
    cases hrest
    cases hc
    obtain ⟨b', slot', hfind', hassign⟩ := htarget
    rw [hfind, Option.some.injEq, Prod.mk.injEq] at hfind'
    obtain ⟨rfl, rfl⟩ := hfind'
    rw [Ty.follow?, Option.some.injEq] at hfollow
    have hvar := hresolves.var hfind hassign
    rw [hfollow] at hvar
    exact Shader.check_assign (type?_name hvar) (by simp [Term.writable, hvar]) hvalue
      (htyped.storedType? hop)
  · rename_i field hrest
    cases hrest
    split_ifs at hc with hroot
    cases hroot
    cases hc
    have hassign := htarget.2 b slot hfind
    obtain ⟨hbtype, hcell⟩ := hresolves.cell hfind hassign
    rw [hbtype] at hfollow
    obtain ⟨d, hmem, rfl, rfl⟩ := Layout.exists_field_of_follow? hfollow
    have hhidden : setterName d.name ∉ (scopeTypes l ks s).map Prod.fst := by
      rw [map_fst_scopeTypes]
      exact append_notMem_shaderNames (by decide) (by decide) d.name
    refine h.check_setter hmem hhidden hcell ?_
    cases op with
    | set =>
        rw [show u = d.type from htyped, Field.valueType_type] at hvalue
        exact hvalue
    | update bop =>
        obtain ⟨rfl, hbop⟩ := htyped
        rw [Field.valueType_type] at hvalue
        exact type?_combined hbop (type?_getter (hresolves.getters d hmem) hcell) hvalue hrank
    | unknown symbol => exact hop.elim
  · cases hc

/-- A variable without an initial value starts at zero. -/
lemma Shader.type?_init {ctx : Context} (hctx : Resolves ctx l ks s) {n : Note}
    {init : Option (Expr Note)} {term : Term}
    (hinit : ∀ e, init = some e → e.WellTyped s ∧ e.type = n.type)
    (pinit : ∀ e, init = some e → e.Worded) (h : initTerm ks n.type init = .ok term) :
    term.type? ctx = some n.type.valueType := by
  cases init with
  | none =>
      cases h
      cases n.type <;> rfl
  | some e =>
      obtain ⟨htyped, htype⟩ := hinit e rfl
      rw [← htype]
      exact Expr.type?_toTerm hctx htyped (pinit e rfl) h

/-- Variables of a rule are scalars. -/
lemma Ty.isLocal_toShader (t : Ty) : t.toShader.isLocal = true := by
  cases t <;> rfl

/-- Behind a statement, too, all read-only names are those that every rule sees. -/
lemma Scope.Over.after {root : Scope} (hs : root.Over s) (stmt : Stmt Note) :
    root.Over (stmt.after s) := by
  cases stmt with
  | declare n type name init =>
      intro b hb hassign
      rcases List.mem_cons.mp hb with rfl | hb
      · cases hassign
      · exact hs b hb hassign
  | block | assign | when | branch => exact hs

mutual

/-- **The code of a well-typed statement passes the check.**  The statement stands in a block that
sees `outer` around it; in the shader that block starts behind `start` variables. -/
theorem Stmt.check_toCode (h : Furnished g l ks) {outer s : Scope} {start : Nat}
    (hopen : Frame.OpensAt l ks outer start) (hs : outer <:+ s) (hover : (rootScope l ks).Over s) :
    ∀ {stmt : Stmt Note} {c : Code}, stmt.WellTyped s outer.length → stmt.Spelled → stmt.Worded →
      stmt.toCode ks = .ok c →
      c.check g result looping start (scopeTypes l ks s)
        = some (scopeTypes l ks (stmt.after s))
  | .block n body, c, ⟨_, wbody⟩, pbody, qbody, hc => by
      simp only [Stmt.toCode, bind_eq_ok, pure_eq_ok] at hc
      obtain ⟨codes, hcodes, rfl⟩ := hc
      have hbody := Stmt.checkAll_toCodes h (Frame.opensAt_inner s) List.suffix_rfl hover wbody pbody
        qbody hcodes
      rw [← length_scopeTypes] at hbody
      exact check_block hbody
  | .declare n type name init, c, ⟨hn, htype, _, hnew, hinit⟩, _, ⟨_, qinit⟩, hc => by
      simp only [Stmt.toCode, bind_eq_ok, pure_eq_ok] at hc
      obtain ⟨term, hterm, rfl⟩ := hc
      have hvalue := type?_init (h.resolves hover) hinit qinit hterm
      have hfresh := Frame.userVar_notMem_block hopen hs hnew
      rw [← map_fst_scopeTypes, List.length_map, ← List.map_take] at hfresh
      exact check_declare hvalue n.type.isLocal_toShader hfresh
  | .assign n m target op value, c, ⟨hn, hm, htype, htarget, wvalue, htyped⟩, ⟨pop, _⟩, qvalue,
      hc => by
      simp only [Stmt.toCode, bind_eq_ok] at hc
      obtain ⟨term, hterm, hc⟩ := hc
      have hvalue := Expr.type?_toTerm (h.resolves hover) wvalue qvalue hterm
      exact h.check_assign hover htype htarget pop htyped hvalue (Expr.rank_toTerm hterm) hc
  | .when n test body, c, ⟨_, wtest, htype, wbody⟩, ⟨_, pbody⟩, ⟨qtest, qbody⟩, hc => by
      simp only [Stmt.toCode, bind_eq_ok, pure_eq_ok] at hc
      obtain ⟨test', htest, body', hbody, rfl⟩ := hc
      have htest' := Expr.type?_toTerm (h.resolves hover) wtest qtest htest
      rw [htype] at htest'
      have hinner := Stmt.check_toCode h (Frame.opensAt_inner s) List.suffix_rfl hover wbody pbody
        qbody hbody
      rw [← length_scopeTypes] at hinner
      obtain ⟨last, hlast⟩ := checkAll_branchBody hinner
      exact check_when htest' hlast
  | .branch n test yes no, c, ⟨_, wtest, htype, wyes, wno⟩, ⟨_, pyes, pno⟩, ⟨qtest, qyes, qno⟩,
      hc => by
      simp only [Stmt.toCode, bind_eq_ok, pure_eq_ok] at hc
      obtain ⟨test', htest, yes', hyes, no', hno, rfl⟩ := hc
      have htest' := Expr.type?_toTerm (h.resolves hover) wtest qtest htest
      rw [htype] at htest'
      have hinner := Stmt.check_toCode h (Frame.opensAt_inner s) List.suffix_rfl hover wyes pyes
        qyes hyes
      have hother := Stmt.check_toCode h (Frame.opensAt_inner s) List.suffix_rfl hover wno pno
        qno hno
      rw [← length_scopeTypes] at hinner hother
      obtain ⟨last, hlast⟩ := checkAll_branchBody hinner
      obtain ⟨last', hlast'⟩ := checkAll_branchBody hother
      exact check_branch htest' hlast hlast'

/-- The code of well-typed statements passes the check. -/
theorem Stmt.checkAll_toCodes (h : Furnished g l ks) {outer s : Scope} {start : Nat}
    (hopen : Frame.OpensAt l ks outer start) (hs : outer <:+ s) (hover : (rootScope l ks).Over s) :
    ∀ {stmts : List (Stmt Note)} {cs : List Code}, Stmt.AllWellTyped s outer.length stmts →
      Stmt.AllSpelled stmts → Stmt.AllWorded stmts → Stmt.toCodes ks stmts = .ok cs →
      Code.checkAll g result looping start cs (scopeTypes l ks s)
        = some (scopeTypes l ks (Stmt.afterAll s stmts))
  | [], cs, _, _, _, hcs => by
      cases hcs
      rfl
  | stmt :: stmts, cs, ⟨wstmt, wstmts⟩, ⟨pstmt, pstmts⟩, ⟨qstmt, qstmts⟩, hcs => by
      simp only [Stmt.toCodes, bind_eq_ok, pure_eq_ok] at hcs
      obtain ⟨c, hc, cs', hcs', rfl⟩ := hcs
      have hfirst := Stmt.check_toCode h hopen hs hover wstmt pstmt qstmt hc
      rw [checkAll_cons hfirst]
      exact Stmt.checkAll_toCodes h hopen (hs.trans (stmt.suffix_after s)) (hover.after stmt) wstmts
        pstmts qstmts hcs'

end

end

end Cellular
