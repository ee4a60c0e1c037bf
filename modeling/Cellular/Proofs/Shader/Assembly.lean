import Cellular.Proofs.Shader.Definitions

/-!
# Whole shaders keep the static rules

The entry point declares the counts, the cell and its fields, runs the code of the rule, and writes the
fields of the cell.  With the functions in front of it, each of which is declared before it is called,
the whole shader of a compiled rule passes the check.

* `Completed` is what the entry point uses, and `Completed.checks_mainFunction` checks it for every
  well-typed rule.
* `sound_globals`: no two declarations outside of functions have one name, and none has a name of
  the language.
* `defineAll?_eq_some` defines functions in turn where each passes the check behind those before it;
  `defineAll?_beforeMain` does so for all functions in front of the entry point.
* `Compiled.check_shader`: the shader of a compiled rule passes the check; `Compiled.check_code`
  says so for the code of the rule and for the accessors where they stand.

Every function was checked in a module of its own against a list of what it needs, and not against a
particular list of declarations.  So there is nothing left to check twice: it remains to see that
each place in the shader offers what is needed there.  That follows for all places from one fact
about names, that no two declarations have the same.  A name is then found wherever it stands in the
list, and more declarations in front of it do no harm.
-/

namespace Cellular

open Shader

namespace Shader

variable {g : Globals} {l : Layout} {ks : KernelSet} {result : ValueType} {looping : Bool}

/-! ## The entry point

The code of the rule stands in the middle of the entry point and shares its scope.  The variables in
front of it are those that the rule may use, and the variables that it declares are still in scope
behind it, where the fields of the cell are written.
-/

/-- Declarations in turn, each of a new name. -/
lemma checkAll_declares {α : Type} {type : α → GType} {name : α → String} {init : α → Term}
    (hlocal : ∀ x, (type x).isLocal = true) :
    ∀ {xs : List α} {locals : VarTypes}, ((xs.map name).reverse ++ locals.map Prod.fst).Nodup →
      (∀ x ∈ xs, ∀ inner : VarTypes, inner.map Prod.fst ⊆ xs.map name →
        (init x).type? ⟨g, inner ++ locals⟩ = some (type x).value) →
      Code.checkAll g result looping 0 (xs.map fun x => .declare (type x) (name x) (init x)) locals
        = some ((xs.map fun x => (name x, (type x).value)).reverse ++ locals)
  | [], locals, _, _ => rfl
  | x :: xs, locals, hnodup, hinit => by
      rw [List.forall_mem_cons] at hinit
      rw [List.map_cons, List.reverse_cons, List.append_assoc, List.singleton_append] at hnodup
      have hnew : name x ∉ (locals.take (locals.length - 0)).map Prod.fst := by
        rw [Nat.sub_zero, List.take_length]
        exact (List.nodup_cons.mp (List.nodup_append.mp hnodup).2.1).1
      have hfirst : (init x).type? ⟨g, locals⟩ = some (type x).value := hinit.1 [] (by simp)
      rw [List.map_cons, checkAll_cons (check_declare hfirst (hlocal x) hnew),
        checkAll_declares hlocal hnodup]
      · simp
      · intro y hy inner hinner
        have hall : (inner ++ [(name x, (type x).value)]).map Prod.fst ⊆ (x :: xs).map name := by
          simp only [List.map_append, List.map_cons, List.map_nil]
          intro n hn
          rcases List.mem_append.mp hn with hn | hn
          · exact List.mem_cons_of_mem _ (hinner hn)
          · rw [List.mem_singleton.mp hn]
            exact List.mem_cons_self
        have htype := hinit.2 y hy _ hall
        rwa [List.append_assoc] at htype

/-- What the entry point may use: besides what all functions may, the place that the shader computes,
the cell that it writes, and the counting functions. -/
structure Completed (g : Globals) (l : Layout) (ks : KernelSet) : Prop extends Supplied g l ks where
  place : ("gl_FragCoord", .var (.vector .float 4) false) ∈ g
  output : (outputName, .var (.vector .uint 4) true) ∈ g
  counts : ∀ k ∈ ks.kernels, (countName k.name, .function [] k.result.toShader.value) ∈ g

lemma isLocal_fieldType (d : Field) : (fieldType d).isLocal = true := by
  rw [fieldType]
  split_ifs <;> rfl

lemma CountType.isLocal_toShader (c : CountType) : c.toShader.isLocal = true := by
  cases c <;> rfl

/-- The code behind the rule: the fields of the cell are written. -/
def closingCode (l : Layout) : List Code :=
  .declare .ivec4 "next" (.call "ivec4" [.int 0])
    :: l.fields.map (fun d => .call (.call (setterName d.name)
        [.name "next", .call (getterName d.name) [cellTerm]]))
    ++ [.set (.name outputName) (.call "uvec4" [.name "next"])]

lemma body_mainFunction (l : Layout) (ks : KernelSet) (rule : List Code) :
    (mainFunction l ks rule).body
      = openingCode l ks ++ .comment "rule program" :: (rule ++ closingCode l) := by
  simp [mainFunction, openingCode, closingCode]

/-- The place of the cell is kept outside of all functions. -/
lemma Completed.check_place (h : Completed g l ks) :
    (Code.set (.name coordName) (.call "ivec2" [.member (.name "gl_FragCoord") "xy"])).check g result
      looping 0 [] = some [] := by
  have hplace : Context.Offers ⟨g, []⟩ "gl_FragCoord" (.var (.vector .float 4) false) :=
    h.sound.offers h.place (by simp)
  have hcoord : Context.Offers ⟨g, []⟩ coordName (.var (.vector .int 2) true) :=
    h.sound.offers h.coord (by simp)
  have hpair : (Term.member (.name "gl_FragCoord") "xy").type? ⟨g, []⟩ = some (.vector .float 2) :=
    type?_member (type?_name hplace.var?) (by simp [Term.rank]) rfl
  exact Shader.check_assign (type?_name hcoord.var?) (by simp [Term.writable, hcoord.var?])
    (type?_construct rfl (types?_one hpair) rfl) rfl

/-- The variables that hold the counts. -/
def countTypes (ks : KernelSet) : VarTypes :=
  (ks.kernels.map fun k => (countLocal k.name, k.result.toShader.value)).reverse

lemma map_fst_countTypes (ks : KernelSet) :
    (countTypes ks).map Prod.fst = (ks.kernels.map fun k => countLocal k.name).reverse := by
  simp [countTypes, Function.comp_def]

/-- Every count is that of its counting function. -/
lemma Completed.checkAll_counts (h : Completed g l ks)
    (hnames : (ks.kernels.map fun k => countLocal k.name).Nodup) :
    Code.checkAll g result looping 0 (ks.kernels.map fun k =>
      .declare k.result.toShader (countLocal k.name) (.call (countName k.name) [])) []
      = some (countTypes ks) := by
  rw [← List.append_nil (countTypes ks)]
  refine checkAll_declares (fun k : Kernel => CountType.isLocal_toShader k.result) ?_ ?_
  · simpa using hnames
  · intro k hk inner hinner
    have hcount : Context.Offers ⟨g, inner ++ []⟩ (countName k.name)
        (.function [] k.result.toShader.value) := by
      refine h.sound.offers (h.counts k hk) fun hmem => ?_
      rw [List.append_nil] at hmem
      obtain ⟨k', -, hname⟩ := List.mem_map.mp (hinner hmem)
      exact append_ne_append (by decide) k'.name k.name hname
    exact type?_call rfl (hcount.call? rfl)

/-- The cell is read from the board. -/
lemma Completed.check_cell (h : Completed g l ks) {start : Nat} :
    (Code.declare .ivec4 cellName (.call cellAtName
      [.member (.name coordName) "x", .member (.name coordName) "y"])).check g result looping start
      (countTypes ks) = some ((cellName, .vector .int 4) :: countTypes ks) := by
  have hcounts : ∀ {name : String}, ¬ "neighbour_count_".toList <+: name.toList →
      name ∉ (countTypes ks).map Prod.fst := by
    intro name hname hmem
    rw [map_fst_countTypes, List.mem_reverse] at hmem
    obtain ⟨k, -, rfl⟩ := List.mem_map.mp hmem
    exact append_ne hname k.name rfl
  have hcoord : Context.Offers ⟨g, countTypes ks⟩ coordName (.var (.vector .int 2) true) :=
    h.sound.offers h.coord (hcounts (by decide))
  have hcellAt : Context.Offers ⟨g, countTypes ks⟩ cellAtName Shader.cellAt.entity :=
    h.sound.offers h.cellAt (hcounts (by decide))
  refine check_declare ?_ rfl fun hmem => ?_
  · exact type?_call (types?_two (type?_axis hcoord (.inl rfl)) (type?_axis hcoord (.inr rfl)))
      (hcellAt.call? rfl)
  · exact hcounts (by decide) (List.map_subset Prod.fst (List.take_subset _ _) hmem)

/-- The fields of the cell are kept as they are before the rule. -/
lemma Completed.checkAll_fields (h : Completed g l ks) (hnames : (mainNames l ks).Nodup) :
    Code.checkAll g result looping 0 (l.fields.map fun d =>
      .declare (fieldType d) (prevLocal d.name) (.call (getterName d.name) [cellTerm]))
      ((cellName, .vector .int 4) :: countTypes ks) = some (mainTypes l ks) := by
  have hlocals : ((cellName, .vector .int 4) :: countTypes ks).map Prod.fst
      = cellName :: (ks.kernels.map fun k => countLocal k.name).reverse := by
    rw [List.map_cons, map_fst_countTypes]
  refine checkAll_declares isLocal_fieldType (by rwa [hlocals]) fun d hd inner hinner => ?_
  have hcell : Context.var? ⟨g, inner ++ (cellName, .vector .int 4) :: countTypes ks⟩ cellName
      = some (.vector .int 4, true) := by
    have hinner : cellName ∉ inner.map Prod.fst := by
      intro hmem
      obtain ⟨d', -, hname⟩ := List.mem_map.mp (hinner hmem)
      exact prevLocal_ne_cell d'.name hname
    refine Context.var?_local ?_
    rw [List.lookup_append, lookup_eq_none_of_notMem hinner, Option.none_or, List.lookup_cons_self]
  refine type?_getter (h.sound.offers (h.getters d hd) fun hmem => ?_) hcell
  have hmain : getterName d.name ∈ mainNames l ks := by
    rw [List.map_append, hlocals, List.mem_append] at hmem
    exact List.mem_append.mpr (hmem.imp_left fun hmem => List.mem_reverse.mpr (hinner hmem))
  exact append_notMem_shaderNames (s := []) (by decide) (by decide) d.name hmain

/-- Before the rule, the variables of the entry point are declared. -/
lemma Completed.checkAll_openingCode (h : Completed g l ks) (hnames : (mainNames l ks).Nodup) :
    Code.checkAll g result looping 0 (openingCode l ks) [] = some (mainTypes l ks) := by
  have hkernels : (ks.kernels.map fun k => countLocal k.name).Nodup :=
    List.nodup_reverse.mp (List.nodup_append.mp hnames).2.1.of_cons
  refine (checkAll_append ((checkAll_cons h.check_place).trans (h.checkAll_counts hkernels))).trans ?_
  exact (checkAll_cons h.check_cell).trans (h.checkAll_fields hnames)

/-- What the code of a rule needs is there. -/
lemma Completed.furnished (h : Completed g l ks) (hnames : (mainNames l ks).Nodup)
    (hks : ks.Compiled l.cellType) : Furnished g l ks where
  sound := h.sound
  getters := h.getters
  setters := h.setters
  names := hnames
  kernels := hks

/-- Behind the rule, its variables may be in scope as well. -/
lemma Completed.checkAll_closingCode (h : Completed g l ks) (hnames : (mainNames l ks).Nodup)
    (hks : ks.Compiled l.cellType) (s : Scope) :
    ∃ inner, Code.checkAll g result looping 0 (closingCode l) (scopeTypes l ks s) = some inner := by
  let locals : VarTypes := ("next", .vector .int 4) :: scopeTypes l ks s
  have hnext : "next" ∉ ((scopeTypes l ks s).take ((scopeTypes l ks s).length - 0)).map Prod.fst := by
    rw [Nat.sub_zero, List.take_length, map_fst_scopeTypes]
    exact notMem_shaderNames (by decide) (by decide)
  have hhidden : ∀ {stem : String}, ¬ stem.toList <+: cellName.toList →
      ¬ stem.toList <+: "next".toList → (∀ other ∈ localStems, Diverge other stem) →
      ∀ a, stem ++ a ∉ locals.map Prod.fst := by
    intro stem hcell hnext hstems a
    rw [List.map_cons, List.mem_cons, map_fst_scopeTypes, not_or]
    exact ⟨append_ne hnext a, append_notMem_shaderNames hcell hstems a⟩
  have hcell : Context.var? ⟨g, locals⟩ cellName = some (.vector .int 4, true) := by
    refine Context.var?_local (show List.lookup cellName (_ :: _) = _ from ?_)
    rw [List.lookup_cons, show (cellName == "next") = false by decide]
    exact lookup_scopeTypes_main hnames (List.mem_append_right _ List.mem_cons_self)
  have hsetters : ∀ d ∈ l.fields, (Code.call (.call (setterName d.name)
      [.name "next", .call (getterName d.name) [cellTerm]])).check g result looping 0 locals
        = some locals := by
    intro d hd
    have hread := type?_getter (h.sound.offers (h.getters d hd)
      (hhidden (by decide) (by decide) (by decide) d.name)) hcell
    exact (h.furnished hnames hks).check_setter hd
      (hhidden (by decide) (by decide) (by decide) d.name) rfl hread
  have houtput : Context.Offers ⟨g, locals⟩ outputName (.var (.vector .uint 4) true) := by
    refine h.sound.offers h.output ?_
    rw [List.map_cons, List.mem_cons, map_fst_scopeTypes, not_or]
    exact ⟨by decide, notMem_shaderNames (by decide) (by decide)⟩
  refine ⟨locals, ?_⟩
  refine (checkAll_cons (check_declare (type?_construct rfl (types?_one rfl) rfl) rfl hnext)).trans ?_
  refine (checkAll_append (checkAll_keeps (List.forall_mem_map.mpr hsetters))).trans ?_
  exact checkAll_one (Shader.check_assign (type?_name houtput.var?)
    (by simp [Term.writable, houtput.var?]) (type?_construct rfl (types?_one (type?_name rfl)) rfl)
    rfl)

/-- **The code of a rule passes the check where it stands**, behind the declarations of the entry
point. -/
lemma Completed.checkAll_rule (h : Completed g l ks) (hnames : (mainNames l ks).Nodup)
    (hks : ks.Compiled l.cellType) {body : List (Stmt Note)} {rule : List Code}
    (htyped : Stmt.AllWellTyped (rootScope l ks) (rootScope l ks).length body)
    (hspelled : Stmt.AllSpelled body) (hworded : Stmt.AllWorded body)
    (hrule : Stmt.toCodes ks body = .ok rule) :
    Code.checkAll g .void false 0 rule (mainTypes l ks)
      = some (scopeTypes l ks (Stmt.afterAll (rootScope l ks) body)) := by
  have hreadonly : ∀ b ∈ rootScope l ks, b.assignable = false := fun b hb => (mem_rootScope hb).1
  have hroot : scopeTypes l ks (rootScope l ks) = mainTypes l ks := by
    have hnone : (rootScope l ks).filter (·.assignable) = [] := by
      simpa [List.filter_eq_nil_iff] using hreadonly
    rw [scopeTypes, userTypes, hnone]
    rfl
  rw [← hroot]
  exact Stmt.checkAll_toCodes (h.furnished hnames hks) (Frame.opensAt_root hreadonly)
    List.suffix_rfl (fun _ hb _ => hb) htyped hspelled hworded hrule

/-- **The entry point passes the check.** -/
lemma Completed.checks_mainFunction (h : Completed g l ks) (hnames : (mainNames l ks).Nodup)
    (hks : ks.Compiled l.cellType) {body : List (Stmt Note)} {rule : List Code}
    (htyped : Stmt.AllWellTyped (rootScope l ks) (rootScope l ks).length body)
    (hspelled : Stmt.AllSpelled body) (hworded : Stmt.AllWorded body)
    (hrule : Stmt.toCodes ks body = .ok rule) : (mainFunction l ks rule).checks g = true := by
  have hchecked := h.checkAll_rule hnames hks htyped hspelled hworded hrule
  obtain ⟨inner, hclosing⟩ : ∃ inner, Code.checkAll g .void false 0 (closingCode l)
      (scopeTypes l ks (Stmt.afterAll (rootScope l ks) body)) = some inner :=
    h.checkAll_closingCode hnames hks _
  suffices hbody : Code.checkAll g .void false 0 (mainFunction l ks rule).body [] = some inner from
    checks_of_checkAll rfl (by simp [mainFunction]) hbody
  rw [body_mainFunction]
  refine (checkAll_append (h.checkAll_openingCode hnames)).trans ?_
  refine (checkAll_cons rfl).trans ?_
  exact (checkAll_append hchecked).trans hclosing

/-! ## Declarations in turn

A function may use what stands in front of it.  Instead of saying for each function what that is,
the lemma asks that it passes the check behind any sound declarations that include the base.
-/

/-- What the definition of a function declares. -/
def Function.entry (f : Function) : String × Entity := (f.name, f.entity)

lemma Globals.Sound.of_suffix {g g' : Globals} (hg : g'.Sound) (h : g <:+ g') : g.Sound where
  nodup := hg.nodup.sublist (h.sublist.map Prod.fst)
  own name hname := hg.own name (List.map_subset Prod.fst h.subset hname)

/-- A name can be declared where it is new. -/
lemma Globals.Sound.declare? {name : String} {e : Entity} (hg : Globals.Sound ((name, e) :: g)) :
    g.declare? name e = some ((name, e) :: g) := by
  have hnew : name ∉ g.map Prod.fst := (List.nodup_cons.mp hg.nodup).1
  have hown : name ∉ languageNames := hg.own name List.mem_cons_self
  exact if_neg (by simp [hnew, hown])

/-- Functions with new names can be defined, when each of them passes the check with what is declared
in front of it. -/
lemma defineAll?_eq_some : ∀ {fs : List Function} {g : Globals},
    Globals.Sound ((fs.map Function.entry).reverse ++ g) →
      (∀ f ∈ fs, ∀ g' : Globals, g'.Sound → g ⊆ g' → f.checks g' = true) →
      g.defineAll? fs = some ((fs.map Function.entry).reverse ++ g)
  | [], g, _, _ => rfl
  | f :: fs, g, hg, hchecks => by
      rw [List.map_cons, List.reverse_cons, List.append_assoc, List.singleton_append] at hg ⊢
      rw [List.forall_mem_cons] at hchecks
      have hsound := hg.of_suffix (List.suffix_append _ _)
      have hfirst := hchecks.1 g (hsound.of_suffix (List.suffix_cons _ _)) (List.Subset.refl g)
      rw [Globals.defineAll?, if_pos hfirst, Option.bind_eq_bind]
      refine (congrArg (Option.bind · _) hsound.declare?).trans ?_
      refine defineAll?_eq_some hg fun f' hf' g' hg' hsub => ?_
      exact hchecks.2 f' hf' g' hg' (List.cons_subset.mp hsub).2

lemma defineAll?_append {fs more : List Function} {g g' : Globals} (h : g.defineAll? fs = some g') :
    g.defineAll? (fs ++ more) = g'.defineAll? more := by
  induction fs generalizing g with
  | nil =>
      cases h
      rfl
  | cons f fs ih =>
      rw [Globals.defineAll?] at h
      split_ifs at h with hchecks
      rw [Option.bind_eq_bind, Option.bind_eq_some_iff] at h
      obtain ⟨next, hnext, hrest⟩ := h
      rw [List.cons_append, Globals.defineAll?, if_pos hchecks, hnext]
      exact ih hrest

/-! ## Names outside of functions

The names are sorted into families by what stands in front of them.  Uniqueness does not depend on
the order of declarations, so the list is permuted first.
-/

/-- What a generated shader declares in front of its functions. -/
def baseGlobals : Globals :=
  [(coordName, .var (.vector .int 2) true), (outputName, .var (.vector .uint 4) true),
    (boardSizeName, .var (.vector .int 2) false), (weightsName, .var .sampler2DArray false),
    (boardName, .var .usampler2D false), ("gl_FragCoord", .var (.vector .float 4) false)]

/-- The names outside of functions that a shader has for itself. -/
def globalFixed (ks : KernelSet) : List String :=
  ["gl_FragCoord", boardName, weightsName, boardSizeName, outputName, coordName, cellAtName, "main"]
    ++ if ks.kernels.any (·.overflow = .wrap) then [wrapName] else []

/-- The families of names outside of functions. -/
def globalFamilies (l : Layout) (ks : KernelSet) : List Family :=
  [⟨"get_cell_state_", l.fields.map Field.name⟩, ⟨"set_cell_state_", l.fields.map Field.name⟩,
    ⟨"count_neighbours_", ks.kernels.map Kernel.name⟩]

lemma stems_globalFamilies (l : Layout) (ks : KernelSet) :
    (globalFamilies l ks).map Family.stem
      = ["get_cell_state_", "set_cell_state_", "count_neighbours_"] := rfl

/-- In another order, these are the fixed names and the families. -/
lemma globalEntries_perm {counts : List Function}
    (hcounts : countFunctions ks ks.kernels = .ok counts) (rule : List Code) :
    ((((helpers l ks ++ counts ++ [mainFunction l ks rule]).map Function.entry).reverse
      ++ baseGlobals).map Prod.fst).Perm
        (globalFixed ks ++ (globalFamilies l ks).flatMap Family.names) := by
  have hfamilies : (globalFamilies l ks).flatMap Family.names
      = (l.fields.map Field.name).map getterName ++ ((l.fields.map Field.name).map setterName
        ++ (ks.kernels.map Kernel.name).map countName) := by
    simp only [globalFamilies, List.flatMap_cons, List.flatMap_nil, List.append_nil]
    rfl
  have hfunctions : (helpers l ks ++ counts ++ [mainFunction l ks rule]).map
      (Prod.fst ∘ Function.entry)
        = (helpers l ks).map (·.name) ++ (ks.kernels.map Kernel.name).map countName ++ ["main"] := by
    rw [List.map_append, List.map_append, ← names_countFunctions hcounts]
    rfl
  rw [List.map_append, List.map_reverse, List.map_map, hfunctions, names_helpers, hfamilies,
    globalFixed, List.perm_iff_count]
  intro name
  have haccessors := (accessors_perm (l.fields.map Field.name)).count_eq name
  simp only [baseGlobals, List.map_cons, List.map_nil, List.count_append, List.count_reverse,
    List.count_cons, List.count_nil] at haccessors ⊢
  rw [haccessors]
  ring

/-- **The names outside of functions are distinct**, and none of the language itself. -/
lemma sound_globals {counts : List Function} (hcounts : countFunctions ks ks.kernels = .ok counts)
    (hfields : (l.fields.map Field.name).Nodup) (hkernels : (ks.kernels.map Kernel.name).Nodup)
    (rule : List Code) :
    Globals.Sound (((helpers l ks ++ counts ++ [mainFunction l ks rule]).map Function.entry).reverse
      ++ baseGlobals) := by
  have hnames := globalEntries_perm (l := l) hcounts rule
  have hfixed : (globalFixed ks).Nodup ∧ (∀ name ∈ globalFixed ks,
      ∀ stem ∈ (globalFamilies l ks).map Family.stem, ¬ stem.toList <+: name.toList) ∧
      ∀ name ∈ globalFixed ks, name ∉ languageNames := by
    rw [globalFixed, stems_globalFamilies]
    split_ifs <;> decide
  have hlanguage : ∀ stem ∈ (globalFamilies l ks).map Family.stem, ∀ name ∈ languageNames,
      ¬ stem.toList <+: name.toList := by
    rw [stems_globalFamilies]
    decide
  constructor
  · rw [hnames.nodup_iff]
    refine nodup_families hfixed.1 ?_ ?_ hfixed.2.1
    · simp only [globalFamilies, List.forall_mem_cons]
      exact ⟨hfields, hfields, hkernels, by simp⟩
    · rw [stems_globalFamilies]
      decide
  · intro name hname hown
    rcases List.mem_append.mp (hnames.mem_iff.mp hname) with hname | hname
    · exact hfixed.2.2 name hname hown
    · obtain ⟨f, hf, hmem⟩ := List.mem_flatMap.mp hname
      obtain ⟨a, -, rfl⟩ := List.mem_map.mp hmem
      exact append_ne (hlanguage f.stem (List.mem_map_of_mem hf) _ hown) a rfl

/-! ## All functions

What the parts need is now read off the list of all declarations.
-/

/-- The functions in front of those that count pass the check. -/
lemma checks_helpers (hfields : ∀ d ∈ l.fields, d.Placed) {f : Function} (hf : f ∈ helpers l ks)
    (hg : g.Sound) (hbase : baseGlobals ⊆ g) : f.checks g = true := by
  simp only [helpers, List.mem_append, List.mem_cons, List.mem_flatMap, List.not_mem_nil,
    or_false] at hf
  rcases hf with (rfl | hf) | ⟨d, hd, rfl | rfl⟩
  · exact checks_cellAt hg (hbase (by simp [baseGlobals]))
  · split_ifs at hf with hwrap
    · rw [List.mem_singleton.mp hf]
      exact checks_wrapFunction hg
    · cases hf
  · exact checks_getter (hfields d hd)
  · exact checks_setter (hfields d hd)

/-- Behind these functions there is what the counting functions use. -/
lemma supplied_of_subset (hg : g.Sound) (hbase : baseGlobals ⊆ g)
    (hhelpers : (helpers l ks).map Function.entry ⊆ g) : Supplied g l ks where
  sound := hg
  weights := hbase (by simp [baseGlobals])
  size := hbase (by simp [baseGlobals])
  coord := hbase (by simp [baseGlobals])
  cellAt := hhelpers (List.mem_map.mpr ⟨Shader.cellAt, by simp [helpers], rfl⟩)
  wrap hwrap := by
    have hany : ks.kernels.any (·.overflow = .wrap) = true := by simpa using hwrap
    refine hhelpers (List.mem_map.mpr ⟨wrapFunction, ?_, rfl⟩)
    rw [helpers, if_pos hany]
    simp
  getters d hd := by
    refine hhelpers (List.mem_map.mpr ⟨getter d, List.mem_append_right _ ?_, rfl⟩)
    exact List.mem_flatMap.mpr ⟨d, hd, by simp⟩
  setters d hd := by
    refine hhelpers (List.mem_map.mpr ⟨setter d, List.mem_append_right _ ?_, rfl⟩)
    exact List.mem_flatMap.mpr ⟨d, hd, by simp⟩

/-- Behind the counting functions there is what the entry point uses. -/
lemma completed_of_subset (hg : g.Sound) (hbase : baseGlobals ⊆ g) {counts : List Function}
    (hcounts : countFunctions ks ks.kernels = .ok counts)
    (hfunctions : (helpers l ks ++ counts).map Function.entry ⊆ g) : Completed g l ks where
  toSupplied := by
    refine supplied_of_subset hg hbase fun x hx => hfunctions ?_
    rw [List.map_append]
    exact List.mem_append_left _ hx
  place := hbase (by simp [baseGlobals])
  output := hbase (by simp [baseGlobals])
  counts k hk := by
    obtain ⟨value, -, hf⟩ := exists_countFunction hcounts hk
    exact hfunctions (List.mem_map.mpr ⟨_, List.mem_append_right _ hf, rfl⟩)

end Shader

/-- What is declared in front of the entry point, the last first. -/
def declaredBeforeMain (l : Layout) (ks : KernelSet) (counts : List Function) : Globals :=
  ((helpers l ks ++ counts).map Function.entry).reverse ++ baseGlobals

namespace Compiled.WellFormed

variable {c : Compiled} {counts : List Function}

/-- The functions in front of the entry point can be defined in turn, and are all that it uses. -/
lemma defineAll?_beforeMain (h : c.WellFormed)
    (hcounts : countFunctions c.kernels c.kernels.kernels = .ok counts) :
    baseGlobals.defineAll? (helpers c.layout c.kernels ++ counts)
      = some (declaredBeforeMain c.layout c.kernels counts) ∧
    Completed (declaredBeforeMain c.layout c.kernels counts) c.layout c.kernels := by
  obtain ⟨specs, hpack⟩ := h.packed
  have hmain := sound_globals hcounts (Layout.nodup_names_of_pack hpack) h.kernels.names_nodup []
  rw [List.map_append, List.reverse_append, List.append_assoc] at hmain
  have hsound : (declaredBeforeMain c.layout c.kernels counts).Sound :=
    hmain.of_suffix (List.suffix_append _ _)
  have hsecond := hsound
  rw [declaredBeforeMain, List.map_append, List.reverse_append, List.append_assoc] at hsecond
  have hfirst := hsecond.of_suffix (List.suffix_append _ _)
  have hhelpers := defineAll?_eq_some hfirst fun f hf g hg hsub =>
    checks_helpers (fun d hd => Layout.placed_of_pack hpack hd) hf hg hsub
  have hcountings := defineAll?_eq_some hsecond fun f hf g hg hsub => by
    obtain ⟨k, hk, value, hvalue, rfl⟩ := exists_kernel_of_mem hcounts hf
    have hsupplied : Supplied g c.layout c.kernels := supplied_of_subset hg
      (fun x hx => hsub (List.mem_append_right _ hx))
      (fun x hx => hsub (List.mem_append_left _ (List.mem_reverse.mpr hx)))
    exact hsupplied.checks_countFunction h.kernels hk hvalue
  refine ⟨?_, completed_of_subset hsound (List.subset_append_right _ _) hcounts fun x hx => ?_⟩
  · rw [defineAll?_append hhelpers, hcountings, declaredBeforeMain, List.map_append,
      List.reverse_append, List.append_assoc]
  · exact List.mem_append_left _ (List.mem_reverse.mpr hx)

/-- The functions of the shader of a compiled rule can be defined in turn. -/
lemma defineAll?_functions (h : c.WellFormed) {rule : List Code}
    (hcounts : countFunctions c.kernels c.kernels.kernels = .ok counts)
    (hrule : Stmt.toCodes c.kernels c.program.body = .ok rule) :
    ∃ globals, baseGlobals.defineAll?
      (helpers c.layout c.kernels ++ counts ++ [mainFunction c.layout c.kernels rule])
        = some globals := by
  obtain ⟨specs, hpack⟩ := h.packed
  have hfields := Layout.nodup_names_of_pack hpack
  have hnames := nodup_mainNames hfields h.kernels.names_nodup
  have hsound := sound_globals hcounts hfields h.kernels.names_nodup rule
  rw [List.map_append, List.reverse_append, List.append_assoc] at hsound
  obtain ⟨hbefore, hcompleted⟩ := h.defineAll?_beforeMain hcounts
  have hchecks := hcompleted.checks_mainFunction hnames h.kernels h.typed h.spelled h.worded hrule
  rw [defineAll?_append hbefore, Globals.defineAll?, if_pos hchecks]
  exact ⟨_, congrArg (Option.bind · _) (Globals.Sound.declare? hsound)⟩

end Compiled.WellFormed

/-- **The shader of a compiled rule passes the check.** -/
lemma Compiled.check_shader {config : Config} {c : Compiled} (h : config.compile = .ok c) :
    ∃ globals, c.shader.check = some globals := by
  obtain ⟨counts, rule, hcounts, hrule, huniforms, houtputs, hglobals, hfunctions⟩ :=
    generate_parts (Config.generated_of_compile h)
  obtain ⟨globals, hdefine⟩ :=
    (Config.wellFormed_of_compile h).defineAll?_functions hcounts hrule
  refine ⟨globals, ?_⟩
  rw [Shader.check, huniforms, houtputs, hglobals, hfunctions]
  exact hdefine

/-- **The code of the rule and the accessors pass the check where they stand.**  The rule stands in
the entry point, behind the declarations of its variables and of all other functions; getters and
setters pass behind the same declarations.  In particular every operand in them binds tighter than
the operator that it is written beside, so that trees need no more parentheses than they hold. -/
theorem Compiled.check_code {config : Config} {c : Compiled} (h : config.compile = .ok c) :
    ∃ counts rule globals, Stmt.toCodes c.kernels c.program.body = .ok rule ∧
      c.shader.functions
        = helpers c.layout c.kernels ++ counts ++ [mainFunction c.layout c.kernels rule] ∧
      baseGlobals.defineAll? (helpers c.layout c.kernels ++ counts) = some globals ∧
      (∃ inner, Code.checkAll globals .void false 0 rule (mainTypes c.layout c.kernels)
        = some inner) ∧
      ∀ d ∈ c.layout.fields, (getter d).checks globals = true ∧ (setter d).checks globals = true := by
  obtain ⟨counts, rule, hcounts, hrule, -, -, -, hfunctions⟩ :=
    generate_parts (Config.generated_of_compile h)
  have hc := Config.wellFormed_of_compile h
  obtain ⟨specs, hpack⟩ := hc.packed
  obtain ⟨hbefore, hcompleted⟩ := hc.defineAll?_beforeMain hcounts
  have hnames := nodup_mainNames (Layout.nodup_names_of_pack hpack) hc.kernels.names_nodup
  have hchecked :=
    hcompleted.checkAll_rule hnames hc.kernels hc.typed hc.spelled hc.worded hrule
  refine ⟨counts, rule, _, hrule, hfunctions, hbefore, ⟨_, hchecked⟩, fun d hd => ?_⟩
  have hplaced := Layout.placed_of_pack hpack hd
  exact ⟨checks_getter hplaced, checks_setter hplaced⟩

end Cellular
