import Cellular.Proofs.Shader.Assembly
import Cellular.Proofs.Shader.Weaving

/-!
# The vocabulary of a checked shader

What the text of a shader is made of is known from its declarations alone: a shader that passes the
check uses no name that it does not declare, and what else it writes has neither braces nor
underscores.

* `Code.introduced`, `Function.introduced` and `Shader.introduced` are the words that code brings in:
  the names that it declares, and its comments.
* `Known names w` says that a word is one of these names or a mark.
* `Term.known_of_type?`, `Code.known_of_check` and `Shader.known_of_check`: all words of checked code
  are known.

The names that a shader uses are as many as there are expressions in it, but the names that it
declares are few.  Going through the check once, with the set of declared names as the invariant,
replaces a look at every place where a name is printed.  Comments are words, too; they are not
checked, and count as brought in.
-/

namespace Cellular

open Shader

namespace Shader

/-! ## Introduced words

What a piece of code brings in is computed from the code, without its context.
-/

mutual

/-- The words that a statement brings in: the names that it declares, and its comments. -/
def Code.introduced : Code → List String
  | .declare _ name _ => [name]
  | .assign .. | .call _ | .skip | .result _ => []
  | .block body => Code.introducedAll body
  | .when _ body => Code.introducedAll body
  | .branch _ yes no => Code.introducedAll yes ++ Code.introducedAll no
  | .loop counter _ body => counter :: Code.introducedAll body
  | .comment text => [text]

/-- The words that statements bring in. -/
def Code.introducedAll : List Code → List String
  | [] => []
  | c :: cs => Code.introduced c ++ Code.introducedAll cs

end

/-- The words that a function definition brings in. -/
def Function.introduced (f : Function) : List String :=
  f.name :: f.params.map (·.name) ++ Code.introducedAll f.body

/-- A word is one of the names, or has neither braces nor underscores. -/
def Known (names : List String) (w : String) : Prop := w ∈ names ∨ isMark w = true

/-- The words that a whole shader brings in, and the place that it is given. -/
def introduced (s : Shader) : List String :=
  "gl_FragCoord" :: (s.uniforms ++ s.outputs ++ s.globals).map (·.name)
    ++ s.functions.flatMap Function.introduced

mutual

/-- What a statement brings in is among its words. -/
lemma Code.introduced_subset_words : ∀ c : Code, c.introduced ⊆ c.words
  | .declare _ name init => by simp [Code.introduced, Code.words]
  | .assign .. | .call _ | .skip | .result _ => by simp [Code.introduced]
  | .block body => Code.introducedAll_subset_words body
  | .when test body => List.subset_append_of_subset_right _ (Code.introducedAll_subset_words body)
  | .branch test yes no => by
      refine List.append_subset.mpr ⟨?_, ?_⟩
      · exact List.subset_append_of_subset_left _
          (List.subset_append_of_subset_right _ (Code.introducedAll_subset_words yes))
      · exact List.subset_append_of_subset_right _ (Code.introducedAll_subset_words no)
  | .loop counter _ body => by
      refine List.cons_subset.mpr ⟨by simp [Code.words], ?_⟩
      exact List.subset_append_of_subset_right _ (Code.introducedAll_subset_words body)
  | .comment text => List.Subset.refl _

/-- The same for statements in turn. -/
lemma Code.introducedAll_subset_words : ∀ cs : List Code,
    Code.introducedAll cs ⊆ Code.wordsAll cs
  | [] => List.Subset.refl _
  | c :: cs => by
      refine List.append_subset.mpr ⟨?_, ?_⟩
      · exact List.subset_append_of_subset_left _ (Code.introduced_subset_words c)
      · exact List.subset_append_of_subset_right _ (Code.introducedAll_subset_words cs)

end

/-- What a function of a shader brings in is among the words of the shader. -/
lemma introduced_subset_words {s : Shader} {f : Function} (hf : f ∈ s.functions) :
    f.introduced ⊆ s.words := by
  have hfunction : f.introduced ⊆ f.words := by
    refine List.append_subset.mpr ⟨List.subset_append_left _ _, ?_⟩
    exact List.subset_append_of_subset_right _ (Code.introducedAll_subset_words f.body)
  intro w hw
  exact List.mem_append_right _ (List.mem_flatMap.mpr ⟨f, hf, hfunction hw⟩)

/-! ## Words of checked code

Each case asks where a word of the printed form comes from.  Symbols of operators, numbers, and
letters of components are marks; every other word is a name, and the check has looked it up.
-/

lemma mem_map_fst_of_lookup {β : Type} {vars : List (String × β)} {name : String} {b : β}
    (h : vars.lookup name = some b) : name ∈ vars.map Prod.fst := by
  by_contra hmem
  rw [lookup_eq_none_of_notMem hmem] at h
  cases h

/-- Digits are neither braces nor underscores. -/
lemma isMarkChar_of_isDigit {c : Char} (h : Number.isDigit c = true) : isMarkChar c = true := by
  have hne : ∀ {d : Char}, Number.isDigit d = false → c ≠ d := by
    rintro d hd rfl
    rw [h] at hd
    cases hd
  simp [isMarkChar, hne (d := '\x7b') rfl, hne (d := '\x7d') rfl, hne (d := '_') rfl]

lemma isMarkChar_of_mem_float {w : List Char} (h : Word .float w) {c : Char} (hc : c ∈ w) :
    isMarkChar c = true := by
  have hdigits : ∀ {ds : List Char}, Digits ds → c ∈ ds → isMarkChar c = true :=
    fun hds hc => isMarkChar_of_isDigit (hds c hc)
  have hexponent : ∀ {ex : List Char}, Exponent ex → c ∈ ex → isMarkChar c = true := by
    intro ex hex hc
    cases hex with
    | plain hmark hds =>
        rcases List.mem_cons.mp hc with rfl | hc
        · rcases hmark with rfl | rfl <;> decide
        · exact hdigits hds hc
    | signed hmark hsign hds =>
        rcases List.mem_cons.mp hc with rfl | hc
        · rcases hmark with rfl | rfl <;> decide
        · rcases List.mem_cons.mp hc with rfl | hc
          · rcases hsign with rfl | rfl <;> decide
          · exact hdigits hds hc
  cases h with
  | point hds hfs hne hex =>
      simp only [List.mem_append, List.mem_cons] at hc
      rcases hc with hc | rfl | hc | hc
      · exact hdigits hds hc
      · decide
      · exact hdigits hfs hc
      · rcases hex with rfl | hex
        · cases hc
        · exact hexponent hex hc
  | exponent hds hne hex =>
      rcases List.mem_append.mp hc with hc | hc
      · exact hdigits hds hc
      · exact hexponent hex hc

/-- Floats have neither braces nor underscores. -/
lemma isMark_of_isFloatLiteral {text : String} (h : isFloatLiteral text = true) :
    isMark text = true := by
  simp only [isFloatLiteral, Bool.and_eq_true, decide_eq_true_eq] at h
  obtain ⟨n, hn⟩ := Nat.exists_eq_add_one.mpr h.1
  have hword := word_of_floatLength (h.2.trans hn)
  rw [← hn, List.take_length] at hword
  rw [isMark, List.all_eq_true]
  exact fun c hc => isMarkChar_of_mem_float hword hc

lemma Op.isMark_symbol {op : Op} {a b c : ValueType} (h : op.type? a b = some c) :
    isMark op.symbol = true := by
  cases op with
  | rule op =>
      cases op with
      | unknown s =>
          rw [Op.type?.eq_def] at h
          split at h
          · split_ifs at h
            cases h
          · cases h
      | or | and | eq | ne | lt | le | gt | ge | add | sub | mul | div | mod => decide
  | bitAnd | bitOr | shiftLeft | shiftRight => decide

lemma Sign.isMark_symbol {op : Sign} {a b : ValueType} (h : op.type? a = some b) :
    isMark op.symbol = true := by
  cases op with
  | rule op =>
      cases op with
      | unknown s =>
          rw [Sign.type?.eq_def] at h
          split at h
          · cases h
          · cases h
      | not | neg => decide
  | complement => decide

/-- An assignment with a type has an operator of the language. -/
lemma isMark_assignSymbol {op : AssignOp} {a b c : ValueType} (h : storedType? op a b = some c) :
    isMark op.symbol = true := by
  cases op with
  | set => decide
  | update op =>
      rw [storedType?] at h
      split_ifs at h
      exact isMark_append (Op.isMark_symbol h) (by decide)
  | unknown s => cases h

/-- The components of a vector have letters. -/
lemma isMark_member {s : Scalar} {size : Nat} {part : String} {a : ValueType}
    (h : membersType? s size part.toList = some a) : isMark part = true := by
  have hletter : ∀ {cs : List Char} {places : List Nat}, cs.mapM componentIndex? = some places →
      cs.all isMarkChar = true := by
    intro cs
    induction cs with
    | nil => simp
    | cons c cs ih =>
        intro places h
        simp only [List.mapM_cons, Option.bind_eq_bind, Option.bind_eq_some_iff] at h
        obtain ⟨i, hi, more, hmore, -⟩ := h
        rw [List.all_cons, ih hmore, Bool.and_true]
        rw [componentIndex?.eq_def] at hi
        split at hi
        · decide
        · decide
        · decide
        · decide
        · cases hi
  simp only [membersType?, Option.bind_eq_bind, Option.bind_eq_some_iff] at h
  obtain ⟨places, hplaces, -⟩ := h
  exact hletter hplaces

lemma mem_languageNames_of_builtin? {f : String} {args : List ValueType} {a : ValueType}
    (h : builtin? f args = some a) : f ∈ languageNames := by
  rw [builtin?.eq_def] at h
  split at h
  · decide
  · decide
  · decide
  · decide
  · cases h

/-- A called function is declared, or one of the language. -/
lemma Context.known_of_call? {ctx : Context} {names : List String}
    (hglobals : ctx.globals.map Prod.fst ⊆ names) {f : String} {args : List ValueType}
    {writable : List Bool} {a : ValueType} (h : ctx.call? f args writable = some a) :
    Known names f := by
  have hlanguage : f ∈ languageNames → Known names f := by
    have hmarks : ∀ name ∈ languageNames, isMark name = true := by decide
    exact fun hmem => .inr (hmarks f hmem)
  rw [Context.call?] at h
  split at h
  · next target hconstructor =>
      refine hlanguage ?_
      by_contra hmem
      rw [constructor?_eq_none hmem] at hconstructor
      cases hconstructor
  · split_ifs at h
    split at h
    · next params result hlookup => exact .inl (hglobals (mem_map_fst_of_lookup hlookup))
    · cases h
    · exact hlanguage (mem_languageNames_of_builtin? h)

/-- A variable in scope is declared. -/
lemma Context.known_of_var? {ctx : Context} {names : List String}
    (hlocals : ctx.locals.map Prod.fst ⊆ names) (hglobals : ctx.globals.map Prod.fst ⊆ names)
    {id : String} {a : ValueType × Bool} (h : ctx.var? id = some a) : Known names id := by
  rw [Context.var?] at h
  split at h
  · next t hlookup => exact .inl (hlocals (mem_map_fst_of_lookup hlookup))
  · split at h
    · next t writable hlookup => exact .inl (hglobals (mem_map_fst_of_lookup hlookup))
    · cases h

section

variable {ctx : Context} {names : List String}

mutual

/-- **The words of an expression that has a type are declared**, or of the language. -/
lemma Term.known_of_type? (hlocals : ctx.locals.map Prod.fst ⊆ names)
    (hglobals : ctx.globals.map Prod.fst ⊆ names) :
    ∀ {t : Term} {a : ValueType}, t.type? ctx = some a → ∀ w ∈ t.words, Known names w
  | .name id, a, h, w, hw => by
      rw [Term.type?, Option.map_eq_some_iff] at h
      obtain ⟨found, hfound, -⟩ := h
      rw [List.mem_singleton.mp hw]
      exact Context.known_of_var? hlocals hglobals hfound
  | .int n, a, h, w, hw => by simp [Term.words] at hw
  | .hex n, a, h, w, hw => by simp [Term.words] at hw
  | .float text, a, h, w, hw => by
      rw [Term.type?] at h
      split_ifs at h with hfloat
      rw [List.mem_singleton.mp hw]
      exact .inr (isMark_of_isFloatLiteral hfloat)
  | .bool b, a, h, w, hw => by simp [Term.words] at hw
  | .paren t, a, h, w, hw => Term.known_of_type? (t := t) hlocals hglobals h w hw
  | .binary op l r, c, h, w, hw => by
      simp only [Term.type?, Option.bind_eq_bind, Option.bind_eq_some_iff] at h
      obtain ⟨a, hl, b, hr, h⟩ := h
      split_ifs at h
      simp only [Term.words, List.mem_append, List.mem_singleton] at hw
      rcases hw with (hw | rfl) | hw
      · exact Term.known_of_type? hlocals hglobals hl w hw
      · exact .inr (Op.isMark_symbol h)
      · exact Term.known_of_type? hlocals hglobals hr w hw
  | .unary op t, b, h, w, hw => by
      simp only [Term.type?, Option.bind_eq_bind, Option.bind_eq_some_iff] at h
      obtain ⟨a, ht, h⟩ := h
      split_ifs at h
      rcases List.mem_cons.mp hw with rfl | hw
      · exact .inr (Sign.isMark_symbol h)
      · exact Term.known_of_type? hlocals hglobals ht w hw
  | .ternary test yes no, b, h, w, hw => by
      simp only [Term.type?, Option.bind_eq_bind, Option.bind_eq_some_iff] at h
      obtain ⟨c, htest, a, hyes, b, hno, -⟩ := h
      simp only [Term.words, List.mem_append] at hw
      rcases hw with (hw | hw) | hw
      · exact Term.known_of_type? hlocals hglobals htest w hw
      · exact Term.known_of_type? hlocals hglobals hyes w hw
      · exact Term.known_of_type? hlocals hglobals hno w hw
  | .call f args, b, h, w, hw => by
      simp only [Term.type?, Option.bind_eq_bind, Option.bind_eq_some_iff] at h
      obtain ⟨types, hargs, h⟩ := h
      rcases List.mem_cons.mp hw with rfl | hw
      · exact Context.known_of_call? hglobals h
      · exact Term.known_of_types? hlocals hglobals hargs w hw
  | .component v i, b, h, w, hw => by
      simp only [Term.type?, Option.bind_eq_bind, Option.bind_eq_some_iff] at h
      obtain ⟨a, hv, -⟩ := h
      exact Term.known_of_type? hlocals hglobals hv w hw
  | .member v part, b, h, w, hw => by
      simp only [Term.type?, Option.bind_eq_bind, Option.bind_eq_some_iff] at h
      obtain ⟨a, hv, h⟩ := h
      rcases List.mem_append.mp hw with hw | hw
      · exact Term.known_of_type? hlocals hglobals hv w hw
      · rw [List.mem_singleton.mp hw]
        split at h
        · split_ifs at h
          exact .inr (isMark_member h)
        · cases h

/-- The same for several expressions. -/
lemma Term.known_of_types? (hlocals : ctx.locals.map Prod.fst ⊆ names)
    (hglobals : ctx.globals.map Prod.fst ⊆ names) :
    ∀ {ts : List Term} {types : List ValueType}, Term.types? ctx ts = some types →
      ∀ w ∈ Term.wordsAll ts, Known names w
  | [], types, h, w, hw => by simp [Term.wordsAll] at hw
  | t :: ts, types, h, w, hw => by
      simp only [Term.types?, Option.bind_eq_bind, Option.bind_eq_some_iff] at h
      obtain ⟨a, ht, more, hts, -⟩ := h
      rcases List.mem_append.mp hw with hw | hw
      · exact Term.known_of_type? hlocals hglobals ht w hw
      · exact Term.known_of_types? hlocals hglobals hts w hw

end

mutual

/-- **The words of a checked statement are declared**, or of the language; and so are the variables
behind it. -/
lemma Code.known_of_check {g : Globals} {result : ValueType} (hglobals : g.map Prod.fst ⊆ names) :
    ∀ {looping : Bool} {start : Nat} {c : Code} {locals inner : VarTypes},
      locals.map Prod.fst ⊆ names → c.introduced ⊆ names →
      c.check g result looping start locals = some inner →
      (∀ w ∈ c.words, Known names w) ∧ inner.map Prod.fst ⊆ names
  | _, start, .declare type name init, locals, inner, hlocals, hnew, h => by
      simp only [Code.check, Option.bind_eq_bind, Option.bind_eq_some_iff] at h
      obtain ⟨t, ht, h⟩ := h
      split_ifs at h
      rw [VarTypes.declare?] at h
      split_ifs at h
      cases h
      have hname : name ∈ names := hnew (by simp [Code.introduced])
      refine ⟨fun w hw => ?_, List.cons_subset.mpr ⟨hname, hlocals⟩⟩
      rcases List.mem_cons.mp hw with rfl | hw
      · exact .inl hname
      · exact Term.known_of_type? hlocals hglobals ht w hw
  | _, start, .assign target op value, locals, inner, hlocals, _, h => by
      simp only [Code.check, Option.bind_eq_bind, Option.bind_eq_some_iff] at h
      obtain ⟨old, hold, new, hvalue, h⟩ := h
      split_ifs at h with hstored
      cases h
      refine ⟨fun w hw => ?_, hlocals⟩
      simp only [Code.words, List.mem_append, List.mem_singleton] at hw
      rcases hw with (hw | rfl) | hw
      · exact Term.known_of_type? hlocals hglobals hold w hw
      · exact .inr (isMark_assignSymbol hstored.2)
      · exact Term.known_of_type? hlocals hglobals hvalue w hw
  | _, start, .call t, locals, inner, hlocals, _, h => by
      simp only [Code.check, Option.bind_eq_bind, Option.bind_eq_some_iff] at h
      obtain ⟨a, ht, h⟩ := h
      cases h
      exact ⟨Term.known_of_type? hlocals hglobals ht, hlocals⟩
  | _, start, .block body, locals, inner, hlocals, hnew, h => by
      simp only [Code.check, Option.bind_eq_bind, Option.bind_eq_some_iff] at h
      obtain ⟨last, hbody, h⟩ := h
      cases h
      exact ⟨Code.known_of_checkAll hglobals hlocals hnew hbody, hlocals⟩
  | _, start, .when test body, locals, inner, hlocals, hnew, h => by
      simp only [Code.check, Option.bind_eq_bind, Option.bind_eq_some_iff] at h
      obtain ⟨a, htest, last, hbody, h⟩ := h
      split_ifs at h
      cases h
      refine ⟨fun w hw => ?_, hlocals⟩
      rcases List.mem_append.mp hw with hw | hw
      · exact Term.known_of_type? hlocals hglobals htest w hw
      · exact Code.known_of_checkAll hglobals hlocals hnew hbody w hw
  | _, start, .branch test yes no, locals, inner, hlocals, hnew, h => by
      simp only [Code.check, Option.bind_eq_bind, Option.bind_eq_some_iff] at h
      obtain ⟨a, htest, last, hyes, last', hno, h⟩ := h
      split_ifs at h
      cases h
      obtain ⟨hnewYes, hnewNo⟩ := List.append_subset.mp hnew
      refine ⟨fun w hw => ?_, hlocals⟩
      simp only [Code.words, List.mem_append] at hw
      rcases hw with (hw | hw) | hw
      · exact Term.known_of_type? hlocals hglobals htest w hw
      · exact Code.known_of_checkAll hglobals hlocals hnewYes hyes w hw
      · exact Code.known_of_checkAll hglobals hlocals hnewNo hno w hw
  | _, start, .loop counter bound body, locals, inner, hlocals, hnew, h => by
      simp only [Code.check, Option.bind_eq_bind, Option.bind_eq_some_iff] at h
      obtain ⟨last, hbody, h⟩ := h
      cases h
      obtain ⟨hcounter, hnewBody⟩ := List.cons_subset.mp hnew
      have hinside : ((counter, ValueType.scalar .int) :: locals).map Prod.fst ⊆ names :=
        List.cons_subset.mpr ⟨hcounter, hlocals⟩
      refine ⟨fun w hw => ?_, hlocals⟩
      rcases List.mem_append.mp hw with hw | hw
      · have hw : w = counter := by simpa using hw
        exact .inl (hw ▸ hcounter)
      · exact Code.known_of_checkAll hglobals hinside hnewBody hbody w hw
  | looping, start, .skip, locals, inner, hlocals, _, h => by
      rw [Code.check] at h
      split_ifs at h
      cases h
      exact ⟨by simp [Code.words], hlocals⟩
  | _, start, .result t, locals, inner, hlocals, _, h => by
      simp only [Code.check, Option.bind_eq_bind, Option.bind_eq_some_iff] at h
      obtain ⟨a, ht, h⟩ := h
      split_ifs at h
      cases h
      exact ⟨Term.known_of_type? hlocals hglobals ht, hlocals⟩
  | _, start, .comment text, locals, inner, hlocals, hnew, h => by
      cases h
      exact ⟨fun w hw => .inl (hnew hw), hlocals⟩

/-- The same for statements in turn. -/
lemma Code.known_of_checkAll {g : Globals} {result : ValueType}
    (hglobals : g.map Prod.fst ⊆ names) :
    ∀ {looping : Bool} {start : Nat} {cs : List Code} {locals inner : VarTypes},
      locals.map Prod.fst ⊆ names → Code.introducedAll cs ⊆ names →
      Code.checkAll g result looping start cs locals = some inner →
      ∀ w ∈ Code.wordsAll cs, Known names w
  | _, start, [], locals, inner, hlocals, hnew, h, w, hw => by simp [Code.wordsAll] at hw
  | _, start, c :: cs, locals, inner, hlocals, hnew, h, w, hw => by
      simp only [Code.checkAll, Option.bind_eq_bind, Option.bind_eq_some_iff] at h
      obtain ⟨next, hc, hcs⟩ := h
      obtain ⟨hnewFirst, hnewRest⟩ := List.append_subset.mp hnew
      obtain ⟨hwords, hnext⟩ := Code.known_of_check hglobals hlocals hnewFirst hc
      rcases List.mem_append.mp hw with hw | hw
      · exact hwords w hw
      · exact Code.known_of_checkAll hglobals hnext hnewRest hcs w hw

end

/-- The words of a checked function definition. -/
lemma Function.known_of_checks {g : Globals} (hglobals : g.map Prod.fst ⊆ names) {f : Function}
    (hnew : f.introduced ⊆ names) (h : f.checks g = true) : ∀ w ∈ f.words, Known names w := by
  simp only [Function.checks, Bool.and_eq_true, Option.isSome_iff_exists] at h
  obtain ⟨-, inner, hbody⟩ := h
  obtain ⟨hown, hnewBody⟩ := List.append_subset.mp hnew
  have hparams : f.paramTypes.map Prod.fst ⊆ names := by
    intro w hw
    refine hown (List.mem_cons_of_mem _ ?_)
    simpa [Function.paramTypes] using hw
  intro w hw
  rcases List.mem_append.mp hw with hw | hw
  · exact .inl (hown hw)
  · exact Code.known_of_checkAll hglobals hparams hnewBody hbody w hw

lemma Globals.subset_of_declare? {g g' : Globals} {name : String} {e : Entity}
    (h : g.declare? name e = some g') (hglobals : g.map Prod.fst ⊆ names) (hname : name ∈ names) :
    g'.map Prod.fst ⊆ names := by
  rw [Globals.declare?] at h
  split_ifs at h
  cases h
  exact List.cons_subset.mpr ⟨hname, hglobals⟩

lemma Globals.subset_of_declareAll? {writable : Bool} :
    ∀ {vs : List Global} {g g' : Globals}, g.declareAll? writable vs = some g' →
      g.map Prod.fst ⊆ names → vs.map (·.name) ⊆ names → g'.map Prod.fst ⊆ names
  | [], g, g', h, hglobals, _ => by
      cases h
      exact hglobals
  | v :: vs, g, g', h, hglobals, hnew => by
      rw [Globals.declareAll?, Option.bind_eq_bind, Option.bind_eq_some_iff] at h
      obtain ⟨next, hv, hvs⟩ := h
      obtain ⟨hname, hnames⟩ := List.cons_subset.mp hnew
      exact Globals.subset_of_declareAll? hvs (Globals.subset_of_declare? hv hglobals hname) hnames

/-- The words of functions that can be defined in turn. -/
lemma known_of_defineAll? : ∀ {fs : List Function} {g g' : Globals}, g.defineAll? fs = some g' →
    g.map Prod.fst ⊆ names → fs.flatMap Function.introduced ⊆ names →
    ∀ w ∈ fs.flatMap Function.words, Known names w
  | [], g, g', h, _, _, w, hw => by simp at hw
  | f :: fs, g, g', h, hglobals, hnew, w, hw => by
      rw [Globals.defineAll?] at h
      split_ifs at h with hchecks
      rw [Option.bind_eq_bind, Option.bind_eq_some_iff] at h
      obtain ⟨next, hf, hfs⟩ := h
      obtain ⟨hnewFirst, hnewRest⟩ := List.append_subset.mp hnew
      have hname : f.name ∈ names := hnewFirst (by simp [Function.introduced])
      rcases List.mem_append.mp hw with hw | hw
      · exact Function.known_of_checks hglobals hnewFirst hchecks w hw
      · exact known_of_defineAll? hfs (Globals.subset_of_declare? hf hglobals hname) hnewRest w hw

end

/-- **The words of a checked shader are those that it brings in**, or of the language. -/
theorem known_of_check {s : Shader} {globals : Globals} (h : s.check = some globals) :
    ∀ w ∈ s.words, Known s.introduced w := by
  simp only [Shader.check, Option.bind_eq_bind, Option.bind_eq_some_iff] at h
  obtain ⟨g₁, huniforms, g₂, houtputs, g₃, hglobals, hfunctions⟩ := h
  have hgiven : Globals.given.map Prod.fst ⊆ s.introduced := by
    simp [Globals.given, Shader.introduced]
  have hvariables : (s.uniforms ++ s.outputs ++ s.globals).map (·.name) ⊆ s.introduced :=
    fun w hw => List.mem_append_left _ (List.mem_cons_of_mem _ hw)
  have hnew : s.functions.flatMap Function.introduced ⊆ s.introduced :=
    fun w hw => List.mem_append_right _ hw
  intro w hw
  rcases List.mem_append.mp hw with hw | hw
  · exact .inl (hvariables hw)
  · simp only [List.map_append, List.append_subset] at hvariables
    obtain ⟨⟨hfirst, hsecond⟩, hthird⟩ := hvariables
    have hafter := Globals.subset_of_declareAll? huniforms hgiven hfirst
    have hall := Globals.subset_of_declareAll? hglobals
      (Globals.subset_of_declareAll? houtputs hafter hsecond) hthird
    exact known_of_defineAll? hfunctions hall hnew w hw

end Shader

end Cellular
