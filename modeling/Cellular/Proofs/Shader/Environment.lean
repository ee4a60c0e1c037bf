import Cellular.Proofs.Machine.Soundness
import Cellular.Proofs.Shader.Accessors
import Mathlib.Data.List.Nodup

/-!
# The variables of a running shader

A frame keeps the variables of a rule by their slots.  The shader keeps them by emitted names, in
one list with the variables of its entry point.  `Frame.shaderVars` is that list for a frame and a
scope, and the operations on both sides correspond.

* `Frame.lookup_shaderVars_user` and `Frame.lookup_shaderVars_main` read variables.
* `Frame.assign_shaderVars_user` and `Frame.assign_shaderVars_cell` store into a variable of the
  rule and into the cell.
* `Frame.declare_shaderVars` declares a variable, `Frame.leave_shaderVars` ends a block.

Slots make a frame simple to define, since no declaration hides another there, but the shader knows
names only.  That a name leads to the value of the right slot is due to the scope, in which the
innermost binding of a name is found first, in the same order in which the variables of the shader
are listed. Storing a variable then changes one entry on both sides.  What a frame keeps in slots
outside of the scope has no variable in the shader any more, and is not seen again.
-/

namespace Cellular

open Shader

/-! ## Values

Scalars have one form in both languages.
-/

/-- A value as a shader holds it. -/
def Value.datum : Value → Datum
  | .int i => .int i
  | .float f => .float f
  | .bool b => .bool b
  | .untyped i _ _ => .int i

/-- The shader type of a value is that of its type in the rule. -/
lemma Value.type_datum {v : Value} {t : Ty} (h : v.kind = t.kind) : v.datum.type = t.toShader := by
  cases v <;> cases t <;> simp_all [Value.kind, Ty.kind, Value.datum, Ty.toShader]

lemma Field.datum_value (f : Field) (r : Record) : (f.value r).datum = f.datum r := by
  simp only [Field.value, Field.datum]
  split_ifs <;> rfl

/-! ## Names

Emitted names are a stem and a name.  The stems differ in their first letter, which is all that is
needed to tell a variable of a rule from one of the entry point.
-/

namespace Shader

@[simp] lemma userVar_inj {a b : String} : userVar a = userVar b ↔ a = b :=
  String.append_right_inj _

@[simp] lemma prevLocal_inj {a b : String} : prevLocal a = prevLocal b ↔ a = b :=
  String.append_right_inj _

@[simp] lemma countLocal_inj {a b : String} : countLocal a = countLocal b ↔ a = b :=
  String.append_right_inj _

/-- A name starts with the first letter of its first part. -/
lemma head?_append {a b : String} {c : Char} (h : a.toList.head? = some c) :
    (a ++ b).toList.head? = some c := by
  rw [String.toList_append, List.head?_append, h]
  rfl

lemma head?_userVar (a : String) : (userVar a).toList.head? = some 'u' :=
  head?_append rfl

lemma head?_prevLocal (a : String) : (prevLocal a).toList.head? = some 'c' :=
  head?_append rfl

lemma head?_countLocal (a : String) : (countLocal a).toList.head? = some 'n' :=
  head?_append rfl

/-- Names with different first letters differ. -/
lemma ne_of_head? {a b : String} {c d : Char} (ha : a.toList.head? = some c)
    (hb : b.toList.head? = some d) (h : c ≠ d) : a ≠ b := by
  rintro rfl
  exact h (Option.some.inj (ha.symm.trans hb))

lemma userVar_ne_cell (a : String) : userVar a ≠ cellName :=
  ne_of_head? (head?_userVar a) rfl (by decide)

lemma countLocal_ne_cell (a : String) : countLocal a ≠ cellName :=
  ne_of_head? (head?_countLocal a) rfl (by decide)

lemma prevLocal_ne_cell (a : String) : prevLocal a ≠ cellName := by
  intro h
  have hlength := congrArg String.length h
  rw [prevLocal, cellName, String.length_append] at hlength
  change 11 + a.length = 4 at hlength
  omega

end Shader

/-- The variables of the entry point that a rule uses, the innermost first: the fields of the cell
as it was, the cell, and the counts. -/
def mainNames (l : Layout) (ks : KernelSet) : List String :=
  (l.fields.map fun d => prevLocal d.name).reverse ++
    cellName :: (ks.kernels.map fun k => countLocal k.name).reverse

/-- No variable of a rule has the name of a variable of the entry point. -/
lemma userVar_notMem_mainNames (l : Layout) (ks : KernelSet) (name : String) :
    userVar name ∉ mainNames l ks := by
  have hprev : ∀ a, prevLocal a ≠ userVar name := fun a =>
    ne_of_head? (head?_prevLocal a) (head?_userVar name) (by decide)
  have hcount : ∀ a, countLocal a ≠ userVar name := fun a =>
    ne_of_head? (head?_countLocal a) (head?_userVar name) (by decide)
  simp [mainNames, hprev, userVar_ne_cell, hcount]

/-- Different fields and kernels have different variables. -/
lemma nodup_mainNames {l : Layout} {ks : KernelSet} (hl : (l.fields.map Field.name).Nodup)
    (hks : (ks.kernels.map Kernel.name).Nodup) : (mainNames l ks).Nodup := by
  have hprev : (l.fields.map fun d => prevLocal d.name).Nodup := by
    have := hl.map (f := prevLocal) fun _ _ => prevLocal_inj.mp
    rwa [List.map_map] at this
  have hcount : (ks.kernels.map fun k => countLocal k.name).Nodup := by
    have := hks.map (f := countLocal) fun _ _ => countLocal_inj.mp
    rwa [List.map_map] at this
  rw [mainNames, List.nodup_append, List.nodup_cons, List.nodup_reverse, List.nodup_reverse]
  refine ⟨hprev, ⟨by simp [countLocal_ne_cell], hcount⟩, ?_⟩
  intro a ha b hb
  obtain ⟨d, -, rfl⟩ := List.mem_map.mp (List.mem_reverse.mp ha)
  rcases List.mem_cons.mp hb with rfl | hb
  · exact prevLocal_ne_cell d.name
  · obtain ⟨k, -, rfl⟩ := List.mem_map.mp (List.mem_reverse.mp hb)
    exact ne_of_head? (head?_prevLocal d.name) (head?_countLocal k.name) (by decide)

/-! ## Variables of the entry point

These are declared once and for all, before the rule.  A rule reads them and stores into the cell.
-/

/-- In a list where no name stands twice, every entry is found. -/
lemma lookup_of_mem_nodup {β : Type} {vars : List (String × β)} (h : (vars.map Prod.fst).Nodup)
    {name : String} {v : β} (hmem : (name, v) ∈ vars) : vars.lookup name = some v := by
  induction vars with
  | nil => simp at hmem
  | cons x vars ih =>
      obtain ⟨n, w⟩ := x
      simp only [List.map_cons, List.nodup_cons] at h
      rcases List.mem_cons.mp hmem with heq | hmem
      · cases heq
        simp
      · have hne : (name == n) = false := by
          rw [beq_eq_false_iff_ne]
          intro heq
          exact h.1 (heq ▸ List.mem_map.mpr ⟨(name, v), hmem, rfl⟩)
        simpa [List.lookup_cons, hne] using ih h.2 hmem

/-- A store goes through the variables of other names. -/
lemma Shader.Vars.assign_append {name : String} {v : Datum} {inner : Vars}
    (h : name ∉ inner.map Prod.fst) (outer : Vars) :
    Vars.assign name v (inner ++ outer) = (Vars.assign name v outer).map (inner ++ ·) := by
  induction inner with
  | nil => simp
  | cons x inner ih =>
      obtain ⟨n, w⟩ := x
      simp only [List.map_cons, List.mem_cons, not_or] at h
      rw [List.cons_append, Vars.assign, if_neg (Ne.symm h.1), ih h.2, Option.map_map]
      rfl

namespace Frame

variable (l : Layout) (ks : KernelSet) (f : Frame)

/-- What the variables of the entry point hold while the frame is that of the rule. -/
def mainVars : Vars :=
  (l.fields.map fun d => (prevLocal d.name, d.datum f.prev)).reverse ++
    (cellName, f.cell.datum) ::
      (ks.kernels.map fun k =>
        (countLocal k.name, ((f.counts.lookup k.name).getD .unset).datum)).reverse

lemma map_fst_mainVars : (f.mainVars l ks).map Prod.fst = mainNames l ks := by
  simp [mainVars, mainNames, Function.comp_def]

variable {l ks f}

/-- A field of the cell as it was. -/
lemma lookup_prevLocal (h : (mainNames l ks).Nodup) {name : String} {d : Field}
    (hd : l.field? name = some d) :
    (f.mainVars l ks).lookup (prevLocal name) = some (d.datum f.prev) := by
  obtain ⟨hmem, rfl⟩ := Layout.mem_of_field? hd
  apply lookup_of_mem_nodup (by rwa [map_fst_mainVars])
  refine List.mem_append_left _ (List.mem_reverse.mpr ?_)
  exact List.mem_map.mpr ⟨d, hmem, rfl⟩

/-- The count of a kernel. -/
lemma lookup_countLocal (h : (mainNames l ks).Nodup) {k : Kernel} (hk : k ∈ ks.kernels) :
    (f.mainVars l ks).lookup (countLocal k.name)
      = some ((f.counts.lookup k.name).getD .unset).datum := by
  apply lookup_of_mem_nodup (by rwa [map_fst_mainVars])
  refine List.mem_append_right _ (List.mem_cons_of_mem _ (List.mem_reverse.mpr ?_))
  exact List.mem_map.mpr ⟨k, hk, rfl⟩

/-- The cell. -/
lemma lookup_cellName (h : (mainNames l ks).Nodup) :
    (f.mainVars l ks).lookup cellName = some f.cell.datum :=
  lookup_of_mem_nodup (by rwa [map_fst_mainVars])
    (List.mem_append_right _ List.mem_cons_self)

/-- Another record in the cell. -/
lemma assign_cellName (r : Record) :
    Vars.assign cellName r.datum (f.mainVars l ks) = some ({ f with cell := r }.mainVars l ks) := by
  have hfields : cellName ∉
      ((l.fields.map fun d => (prevLocal d.name, d.datum f.prev)).reverse).map Prod.fst := by
    simp [prevLocal_ne_cell]
  rw [mainVars, Vars.assign_append hfields]
  simp [Vars.assign, mainVars]

/-! ## Variables of the rule

The list of variables is defined by recursion on the scope; read-only bindings have no variable in
it.
-/

/-- The variables of a rule that are visible in a scope, with their values. -/
def userVars (f : Frame) : Scope → Vars
  | [] => []
  | b :: below =>
    if b.assignable then
      (userVar b.name, ((f.locals.lookup below.length).getD .unset).datum) :: f.userVars below
    else f.userVars below

/-- The emitted names of the variables that are visible in a scope. -/
def userNames (s : Scope) : List String :=
  (s.filter (·.assignable)).map fun b => userVar b.name

lemma map_fst_userVars (f : Frame) : ∀ s : Scope, (f.userVars s).map Prod.fst = userNames s
  | [] => rfl
  | b :: below => by
      have ih := f.map_fst_userVars below
      cases hassign : b.assignable <;> simp_all [userVars, userNames]

/-- A scope of read-only names has no variables. -/
lemma userVars_eq_nil (f : Frame) {s : Scope} (h : ∀ b ∈ s, b.assignable = false) :
    f.userVars s = [] := by
  induction s with
  | nil => rfl
  | cons c below ih =>
      rw [List.forall_mem_cons] at h
      rw [userVars, if_neg (by simp [h.1]), ih h.2]

/-- A name resolves to the innermost variable, as it does in the rule. -/
lemma lookup_userVars {s : Scope} {name : String} {b : Binding} {slot : Slot}
    (h : s.find? name = some (b, slot)) (hassign : b.assignable = true) :
    (f.userVars s).lookup (userVar name)
      = some ((f.locals.lookup slot).getD .unset).datum := by
  induction s with
  | nil => simp [Scope.find?] at h
  | cons c below ih =>
      rw [Scope.find?] at h
      split_ifs at h with hname
      · obtain ⟨rfl, rfl⟩ := Prod.mk.inj (Option.some.inj h)
        simp [userVars, hassign, hname]
      · have hne : (userVar name == userVar c.name) = false := by simpa using Ne.symm hname
        cases hc : c.assignable with
        | true => simpa [userVars, hc, List.lookup_cons, hne] using ih h
        | false => simpa [userVars, hc] using ih h

/-- A store into a slot above a scope is not seen in it. -/
lemma userVars_store_of_le {s : Scope} {slot : Slot} (v : Value) (h : s.length ≤ slot) :
    (f.store slot v).userVars s = f.userVars s := by
  induction s with
  | nil => rfl
  | cons c below ih =>
      rw [List.length_cons] at h
      have hslot : below.length ≠ slot := by omega
      rw [userVars, userVars, ih (by omega), f.lookup_store_of_ne hslot]

/-- A store into a variable, which keeps its type. -/
lemma assign_userVars {s : Scope} {name : String} {b : Binding} {slot : Slot} {old v : Value}
    (h : s.find? name = some (b, slot)) (hassign : b.assignable = true)
    (hold : f.locals.lookup slot = some old) (htype : old.datum.type = v.datum.type)
    (outer : Vars) :
    Vars.assign (userVar name) v.datum (f.userVars s ++ outer)
      = some ((f.store slot v).userVars s ++ outer) := by
  induction s with
  | nil => simp [Scope.find?] at h
  | cons c below ih =>
      rw [Scope.find?] at h
      split_ifs at h with hname
      · obtain ⟨rfl, rfl⟩ := Prod.mk.inj (Option.some.inj h)
        rw [userVars, userVars, if_pos hassign, if_pos hassign, hname,
          f.userVars_store_of_le v le_rfl, f.lookup_store, hold]
        simp [Vars.assign, htype]
      · obtain ⟨inner, hsuffix, rfl, -⟩ := Scope.suffix_of_find? h
        have hslot : below.length ≠ inner.length := (Scope.slot_lt hsuffix).ne'
        rw [userVars, userVars, f.lookup_store_of_ne hslot]
        split_ifs with hc
        · have hne : userVar c.name ≠ userVar name := by simpa using hname
          rw [List.cons_append, Vars.assign, if_neg hne, ih h]
          rfl
        · exact ih h

/-- The variables of outer scopes stand behind those of inner ones. -/
lemma userVars_suffix (f : Frame) {outer s : Scope} (h : outer <:+ s) :
    f.userVars outer <:+ f.userVars s := by
  induction s with
  | nil =>
      obtain rfl := List.suffix_nil.mp h
      exact List.suffix_rfl
  | cons c below ih =>
      rcases List.suffix_cons_iff.mp h with rfl | h
      · exact List.suffix_rfl
      · rw [userVars]
        split_ifs
        · exact (ih h).trans (List.suffix_cons _ _)
        · exact ih h

/-! ## All variables -/

variable (l ks) in
/-- The variables of a running shader: those of the rule, then those of the entry point. -/
def shaderVars (f : Frame) (s : Scope) : Vars := f.userVars s ++ f.mainVars l ks

variable (l ks) in
/-- The names of the variables of a running shader. -/
def shaderNames (s : Scope) : List String := userNames s ++ mainNames l ks

lemma map_fst_shaderVars (f : Frame) (s : Scope) :
    (f.shaderVars l ks s).map Prod.fst = shaderNames l ks s := by
  rw [shaderVars, shaderNames, List.map_append, map_fst_userVars, map_fst_mainVars]

lemma length_shaderVars (f : Frame) (s : Scope) :
    (f.shaderVars l ks s).length = (shaderNames l ks s).length := by
  rw [← f.map_fst_shaderVars s, List.length_map]

/-- The variables of the rule hide none of the entry point. -/
lemma lookup_shaderVars_main {s : Scope} {name : String} {v : Datum}
    (h : (f.mainVars l ks).lookup name = some v) :
    (f.shaderVars l ks s).lookup name = some v := by
  have hnone : (f.userVars s).lookup name = none := by
    rw [List.lookup_eq_none_iff]
    intro x hx
    have hmem : x.1 ∈ userNames s := f.map_fst_userVars s ▸ List.mem_map_of_mem hx
    obtain ⟨b, -, hb⟩ := List.mem_map.mp hmem
    rw [bne_iff_ne, ← hb]
    rintro rfl
    -- a name of the rule is found among no others
    have hmain : (f.mainVars l ks).lookup (userVar b.name) = none := by
      rw [List.lookup_eq_none_iff]
      intro y hy
      rw [bne_iff_ne]
      intro heq
      apply userVar_notMem_mainNames l ks b.name
      rw [heq, ← f.map_fst_mainVars l ks]
      exact List.mem_map_of_mem hy
    rw [hmain] at h
    cases h
  rw [shaderVars, List.lookup_append, hnone, Option.none_or, h]

/-- A variable of the rule. -/
lemma lookup_shaderVars_user {s : Scope} {name : String} {b : Binding} {slot : Slot} {v : Value}
    (h : s.find? name = some (b, slot)) (hassign : b.assignable = true)
    (hv : f.locals.lookup slot = some v) :
    (f.shaderVars l ks s).lookup (userVar name) = some v.datum := by
  rw [shaderVars, List.lookup_append, f.lookup_userVars h hassign, hv]
  rfl

/-- At the end of a block the variables are those of the scope around it. -/
lemma leave_shaderVars (f g : Frame) {outer s : Scope} (h : outer <:+ s) :
    (f.shaderVars l ks s).leave (g.shaderVars l ks outer).length = f.shaderVars l ks outer := by
  have hsuffix : f.shaderVars l ks outer <:+ f.shaderVars l ks s :=
    List.suffix_append_self_iff.mpr (f.userVars_suffix h)
  rw [Vars.leave, length_shaderVars g, ← length_shaderVars f]
  exact (List.suffix_iff_eq_drop.mp hsuffix).symm

/-! ## Declarations

A name may be declared again in an inner block, not twice in the same one.  The shader decides this
by the number of variables when the block started, and `Frame.OpensAt` relates this number to the
scope.
-/

variable (l ks) in
/-- `OpensAt l ks outer start`: in the shader, a block of the rule whose surroundings see `outer`
starts behind `start` variables.  What lies between is none of the rule's: the braces of the entry
point hold its own variables as well. -/
structure OpensAt (outer : Scope) (start : Nat) : Prop where
  le : start ≤ (shaderNames l ks outer).length
  fresh : ∀ name, userVar name ∉
    (shaderNames l ks outer).take ((shaderNames l ks outer).length - start)

/-- Inside braces of its own a block starts behind all variables around it. -/
lemma opensAt_inner (s : Scope) : OpensAt l ks s (shaderNames l ks s).length where
  le := le_rfl
  fresh := by simp

lemma opensAt_block (f : Frame) (s : Scope) : OpensAt l ks s (f.shaderVars l ks s).length := by
  rw [length_shaderVars]
  exact opensAt_inner s

/-- The rule itself stands in the braces of the entry point. -/
lemma opensAt_root {s : Scope} (h : ∀ b ∈ s, b.assignable = false) : OpensAt l ks s 0 where
  le := Nat.zero_le _
  fresh := by
    have hnone : userNames s = [] := by
      rw [userNames, List.map_eq_nil_iff, List.filter_eq_nil_iff]
      exact fun b hb => by simp [h b hb]
    intro name
    rw [shaderNames, hnone, Nat.sub_zero, List.take_length, List.nil_append]
    exact userVar_notMem_mainNames l ks name

/-- A name that is new to its block of the rule is new to its braces in the shader. -/
lemma userVar_notMem_block {outer s : Scope} {start : Nat} (hopen : OpensAt l ks outer start)
    (hs : outer <:+ s) {name : String} (hnew : s.declaredSince outer.length name = false) :
    userVar name ∉ (shaderNames l ks s).take ((shaderNames l ks s).length - start) := by
  obtain ⟨newer, rfl⟩ := hs
  have hnames : shaderNames l ks (newer ++ outer) = userNames newer ++ shaderNames l ks outer := by
    simp [shaderNames, userNames]
  have hle := hopen.le
  rw [hnames, List.length_append, List.take_append, List.take_of_length_le (by omega)]
  have hrest : (userNames newer).length + (shaderNames l ks outer).length - start
      - (userNames newer).length = (shaderNames l ks outer).length - start := by omega
  rw [hrest, List.mem_append, not_or]
  refine ⟨?_, hopen.fresh name⟩
  intro hmem
  obtain ⟨b, hb, hname⟩ := List.mem_map.mp hmem
  obtain ⟨hmem, hassign⟩ := List.mem_filter.mp hb
  have hdeclared : Scope.declaredSince (newer ++ outer) outer.length name = true := by
    rw [Scope.declaredSince, List.length_append, Nat.add_sub_cancel_right, List.take_left]
    exact List.any_eq_true.mpr ⟨b, hmem, by simpa [hassign] using hname⟩
  rw [hdeclared] at hnew
  cases hnew

/-- A declaration of the rule is one of the shader. -/
lemma declare_shaderVars {outer s : Scope} {start : Nat} (hopen : OpensAt l ks outer start)
    (hs : outer <:+ s) {name : String} (hnew : s.declaredSince outer.length name = false) {t : Ty}
    {v : Value} (hv : v.kind = t.kind) :
    Vars.declare start t.toShader (userVar name) v.datum (f.shaderVars l ks s)
      = some ((f.store s.length v).shaderVars l ks (s.declare name t)) := by
  have hfresh := userVar_notMem_block hopen hs hnew
  rw [Vars.declare, List.map_take, map_fst_shaderVars, length_shaderVars,
    if_pos ⟨Value.type_datum hv, hfresh⟩]
  have hvars : (f.store s.length v).userVars (s.declare name t)
      = (userVar name, v.datum) :: f.userVars s := by
    rw [Scope.declare, userVars, if_pos rfl, f.lookup_store, f.userVars_store_of_le v le_rfl]
    rfl
  rw [shaderVars, shaderVars, hvars]
  rfl

/-- An assignment of the rule to a variable is one of the shader. -/
lemma assign_shaderVars_user {s : Scope} {name : String} {b : Binding} {slot : Slot} {old v : Value}
    (h : s.find? name = some (b, slot)) (hassign : b.assignable = true)
    (hold : f.locals.lookup slot = some old) (htype : old.datum.type = v.datum.type) :
    Vars.assign (userVar name) v.datum (f.shaderVars l ks s)
      = some ((f.store slot v).shaderVars l ks s) :=
  f.assign_userVars h hassign hold htype (f.mainVars l ks)

/-- An assignment of the rule to the cell is one of the shader. -/
lemma assign_shaderVars_cell {s : Scope} (r : Record) :
    Vars.assign cellName r.datum (f.shaderVars l ks s)
      = some ({ f with cell := r }.shaderVars l ks s) := by
  have huser : cellName ∉ (f.userVars s).map Prod.fst := by
    rw [map_fst_userVars, userNames, List.mem_map]
    rintro ⟨b, -, hb⟩
    exact userVar_ne_cell b.name hb
  have hvars : ∀ s : Scope, { f with cell := r }.userVars s = f.userVars s := by
    intro s
    induction s with
    | nil => rfl
    | cons c below ih => simp only [userVars, ih]
  rw [shaderVars, Vars.assign_append huser, assign_cellName, Option.map_some, shaderVars, hvars]

end Frame

end Cellular
