import SqlAssist.Proofs.Symbol.Catalog

/-!
What a catalog answers, said of the declarations that it was made of.

Names are declared one role at a time, in any order and more than once.  The tables of the roles do
not see each other, so each is made of the declarations of its role alone; what it lists and what
it finds is then said of that list.  The first declaration of a name stands, so both come down to
the first of the list that has the name (`firsts`, `List.find?`).

Classification and documentation go through the roles in different orders.  They still agree on
every name that the catalog does not report as declared in several roles.
-/

namespace SqlAssist

/-! ## One table -/

def firsts {α : Type} (name : α → Text) : List α → List α
  | [] => []
  | v :: rest => v :: (firsts name rest).filter fun w => Text.fold (name w) ≠ Text.fold (name v)

namespace NameTable

variable {α : Type} {name : α → Text}

def declareAll (name : α → Text) (t : NameTable α) (vs : List α) : NameTable α :=
  vs.foldl (fun t v => t.declare (name v) v) t

theorem declare_of_mem {t : NameTable α} {v : α} (h : Text.fold (name v) ∈ t.keys) :
    t.declare (name v) v = t := if_pos (contains_iff_mem_keys.2 h)

theorem declare_of_not_mem {t : NameTable α} {v : α} (h : Text.fold (name v) ∉ t.keys) :
    t.declare (name v) v = { entries := t.entries ++ [(Text.fold (name v), v)] } :=
  if_neg fun hcontains => h (contains_iff_mem_keys.1 hcontains)

/-- New names go to the end, each with the first of its declarations. -/
theorem entries_declareAll (t : NameTable α) (vs : List α) :
    (declareAll name t vs).entries = t.entries ++
      ((firsts name vs).filter fun v => Text.fold (name v) ∉ t.keys).map
        fun v => (Text.fold (name v), v) := by
  induction vs generalizing t with
  | nil => exact (List.append_nil _).symm
  | cons v rest ih =>
    have hstep : declareAll name t (v :: rest) = declareAll name (t.declare (name v) v) rest := rfl
    rw [hstep, ih, firsts]
    by_cases hv : Text.fold (name v) ∈ t.keys
    · rw [declare_of_mem hv, List.filter_cons_of_neg (by simpa using hv), List.filter_filter]
      -- the names that are not in the table are other names
      refine congrArg (fun ws => t.entries ++ List.map _ ws) (List.filter_congr fun w _ => ?_)
      by_cases hw : Text.fold (name w) = Text.fold (name v)
      · simp [hw, hv]
      · simp [hw]
    · rw [declare_of_not_mem hv, List.filter_cons_of_pos (by simpa using hv), List.filter_filter,
        List.map_cons, List.append_assoc]
      refine congrArg (fun ws => t.entries ++ (_ :: List.map _ ws))
        (List.filter_congr fun w _ => ?_)
      rw [Bool.eq_iff_iff, Bool.and_eq_true, decide_eq_true_iff, decide_eq_true_iff,
        decide_eq_true_iff, keys, List.map_append, List.mem_append, not_or]
      simp [keys]

theorem find?_firsts (vs : List α) (folded : Text) :
    ((firsts name vs).find? fun v => Text.fold (name v) == folded) =
      vs.find? fun v => Text.fold (name v) == folded := by
  induction vs with
  | nil => rfl
  | cons v rest ih =>
    by_cases hv : Text.fold (name v) = folded
    · rw [firsts, List.find?_cons_of_pos (by simpa using hv),
        List.find?_cons_of_pos (by simpa using hv)]
    · rw [firsts, List.find?_cons_of_neg (by simpa using hv),
        List.find?_cons_of_neg (by simpa using hv), List.find?_filter, ← ih]
      refine congrArg (fun p => (firsts name rest).find? p) (funext fun w => ?_)
      by_cases hw : Text.fold (name w) = folded
      · simp [hw, Ne.symm hv]
      · simp [hw]

/-! A table that is made of declarations alone lists the first of each name, and finds it. -/

theorem values_declareAll (vs : List α) : (declareAll name empty vs).values = firsts name vs := by
  rw [values, entries_declareAll]
  simp [empty, keys, Function.comp_def]

theorem get?_declareAll (vs : List α) (folded : Text) :
    (declareAll name empty vs).get? folded =
      vs.find? fun v => Text.fold (name v) == folded := by
  rw [get?, entries_declareAll, ← find?_firsts]
  simp [empty, keys, Function.comp_def]

theorem contains_declareAll (vs : List α) (folded : Text) :
    (declareAll name empty vs).contains folded =
      vs.any fun v => Text.fold (name v) == folded := by
  rw [contains_eq_isSome_get?, get?_declareAll, Bool.eq_iff_iff, List.find?_isSome,
    List.any_eq_true]

theorem declareAll_concat (t : NameTable α) (vs : List α) (v : α) :
    declareAll name t (vs ++ [v]) = (declareAll name t vs).declare (name v) v :=
  List.foldl_concat ..

end NameTable

/-! ## Declarations -/

inductive Declaration where
  | keyword (name : Text)
  | dataType (name : Text)
  | streamOption (name : Text)
  | function (e : SymbolEntry)
  | windowFunction (e : SymbolEntry)

namespace Catalog

def declare (c : Catalog) : Declaration → Catalog
  | .keyword name => c.addKeyword name
  | .dataType name => c.addDataType name
  | .streamOption name => c.addStreamOption name
  | .function e => c.addFunction e
  | .windowFunction e => c.addWindowFunction e

/-- The catalog that declarations make, one after the other.  Names that are declared together
come one after the other too. -/
def build (ds : List Declaration) : Catalog := ds.foldl declare empty

end Catalog

namespace Declarations

def add (d : Declarations) : Declaration → Declarations
  | .keyword name => { d with keywords := d.keywords ++ [name] }
  | .dataType name => { d with dataTypes := d.dataTypes ++ [name] }
  | .streamOption name => { d with streamOptions := d.streamOptions ++ [name] }
  | .function e => { d with functions := d.functions ++ [e] }
  | .windowFunction e => { d with windowFunctions := d.windowFunctions ++ [e] }

/-- Declarations by role, in each role in their order. -/
def byRole (ds : List Declaration) : Declarations := ds.foldl add {}

def names (d : Declarations) : SymbolKind → List Text
  | .keyword => d.keywords
  | .dataType => d.dataTypes
  | .streamOption => d.streamOptions
  | .function => d.functions.map SymbolEntry.name
  | .windowFunction => d.windowFunctions.map SymbolEntry.name

def entries (d : Declarations) : SymbolKind → List SymbolEntry
  | .function => d.functions
  | .windowFunction => d.windowFunctions
  | .keyword | .dataType | .streamOption => []

def declares (d : Declarations) (folded : Text) (k : SymbolKind) : Bool :=
  (d.names k).any fun name => Text.fold name == folded

def entry? (d : Declarations) (folded : Text) (k : SymbolKind) : Option SymbolEntry :=
  (d.entries k).find? fun e => Text.fold e.name == folded

end Declarations

namespace Catalog

open NameTable (declareAll declareAll_concat values_declareAll get?_declareAll contains_declareAll)

structure MadeOf (c : Catalog) (d : Declarations) : Prop where
  keywords : c.keywords = declareAll id .empty d.keywords
  dataTypes : c.dataTypes = declareAll id .empty d.dataTypes
  streamOptions : c.streamOptions = declareAll id .empty d.streamOptions
  functions : c.functions = declareAll SymbolEntry.name .empty d.functions
  windowFunctions : c.windowFunctions = declareAll SymbolEntry.name .empty d.windowFunctions

theorem MadeOf.declare {c : Catalog} {d : Declarations} (h : c.MadeOf d) (x : Declaration) :
    (c.declare x).MadeOf (d.add x) := by
  cases x with
  | keyword name =>
    refine { h with keywords := ?_ }
    rw [Declarations.add, declareAll_concat, ← h.keywords]
    rfl
  | dataType name =>
    refine { h with dataTypes := ?_ }
    rw [Declarations.add, declareAll_concat, ← h.dataTypes]
    rfl
  | streamOption name =>
    refine { h with streamOptions := ?_ }
    rw [Declarations.add, declareAll_concat, ← h.streamOptions]
    rfl
  | function e =>
    refine { h with functions := ?_ }
    rw [Declarations.add, declareAll_concat, ← h.functions]
    rfl
  | windowFunction e =>
    refine { h with windowFunctions := ?_ }
    rw [Declarations.add, declareAll_concat, ← h.windowFunctions]
    rfl

theorem madeOf_build (ds : List Declaration) : (build ds).MadeOf (.byRole ds) := by
  have hrun : ∀ (c : Catalog) (d : Declarations), c.MadeOf d →
      (ds.foldl Catalog.declare c).MadeOf (ds.foldl Declarations.add d) := by
    induction ds with
    | nil => exact fun c d h => h
    | cons x rest ih => exact fun c d h => ih _ _ (h.declare x)
  exact hrun empty {} ⟨rfl, rfl, rfl, rfl, rfl⟩

theorem Built.declare {c : Catalog} (h : Built c) (x : Declaration) : Built (c.declare x) := by
  cases x with
  | keyword name => exact .keyword h name
  | dataType name => exact .dataType h name
  | streamOption name => exact .streamOption h name
  | function e => exact .function h e
  | windowFunction e => exact .windowFunction h e

theorem built_build (ds : List Declaration) : Built (build ds) :=
  Built.foldl Built.declare ds .empty

/-! ## What a catalog answers -/

theorem MadeOf.declares {c : Catalog} {d : Declarations} (h : c.MadeOf d) :
    c.declares = d.declares := by
  funext folded k
  cases k with
  | keyword => rw [Catalog.declares, h.keywords, contains_declareAll]; rfl
  | dataType => rw [Catalog.declares, h.dataTypes, contains_declareAll]; rfl
  | streamOption => rw [Catalog.declares, h.streamOptions, contains_declareAll]; rfl
  | function =>
    rw [Catalog.declares, h.functions, contains_declareAll, Declarations.declares,
      Declarations.names, List.any_map]
    rfl
  | windowFunction =>
    rw [Catalog.declares, h.windowFunctions, contains_declareAll, Declarations.declares,
      Declarations.names, List.any_map]
    rfl

theorem nodup_overlaps (c : Catalog) : (c.overlaps.map Prod.fst).Nodup :=
  c.nodup_roles.sublist (List.filter_sublist.map Prod.fst)

theorem MadeOf.function? {c : Catalog} {d : Declarations} (h : c.MadeOf d) (word : Text) :
    c.function? word = d.entry? (Text.fold word) .function := by
  rw [Catalog.function?, h.functions, get?_declareAll]
  rfl

theorem MadeOf.windowFunction? {c : Catalog} {d : Declarations} (h : c.MadeOf d) (word : Text) :
    c.windowFunction? word = d.entry? (Text.fold word) .windowFunction := by
  rw [Catalog.windowFunction?, h.windowFunctions, get?_declareAll]
  rfl

/-- Away from the names in several roles, both searches find the same role, and the declaration
found is the first of its name there. -/
theorem MadeOf.documented?_iff {c : Catalog} {d : Declarations} (h : c.MadeOf d) {word : Text}
    (halone : Text.fold word ∉ c.overlaps.map Prod.fst) {k : SymbolKind} {e : SymbolEntry} :
    c.documented? word = some (k, e) ↔
      c.classify word = some k ∧ (k = .function ∨ k = .windowFunction) ∧
        d.entry? (Text.fold word) k = some e := by
  rw [documented?_eq_some_iff]
  constructor
  · rintro (⟨rfl, he⟩ | ⟨rfl, -, he⟩)
    · exact ⟨classify_of_declares_alone halone (declares_function_iff.2 ⟨e, he⟩), Or.inl rfl,
        by rw [← h.function?, he]⟩
    · exact ⟨classify_of_declares_alone halone (declares_windowFunction_iff.2 ⟨e, he⟩), Or.inr rfl,
        by rw [← h.windowFunction?, he]⟩
  · rintro ⟨-, rfl | rfl, he⟩
    · rw [← h.function?] at he
      exact Or.inl ⟨rfl, he⟩
    · rw [← h.windowFunction?] at he
      refine Or.inr ⟨rfl, ?_, he⟩
      rw [Option.eq_none_iff_forall_ne_some]
      intro f hf
      have hrole := eq_of_declares halone (declares_function_iff.2 ⟨f, hf⟩)
        (declares_windowFunction_iff.2 ⟨e, he⟩)
      exact SymbolKind.noConfusion hrole

/-- Whether a catalog lists and finds what was declared. -/
structure Answers (c : Catalog) (d : Declarations) : Prop where
  keywords : c.keywords.values = firsts id d.keywords
  dataTypes : c.dataTypes.values = firsts id d.dataTypes
  streamOptions : c.streamOptions.values = firsts id d.streamOptions
  functions : c.functions.values = firsts SymbolEntry.name d.functions
  windowFunctions : c.windowFunctions.values = firsts SymbolEntry.name d.windowFunctions
  /-- The first role in order of precedence that the name is declared in. -/
  classify : ∀ word, c.classify word = SymbolKind.precedence.find? (d.declares (Text.fold word))
  /-- The names that are declared in two roles or more, each with all its roles. -/
  mem_overlaps : ∀ folded kinds, (folded, kinds) ∈ c.overlaps ↔
    2 ≤ kinds.length ∧ kinds = SymbolKind.precedence.filter (d.declares folded)
  overlaps_once : (c.overlaps.map Prod.fst).Nodup
  documented : ∀ word, Text.fold word ∉ c.overlaps.map Prod.fst → ∀ k e,
    c.documented? word = some (k, e) ↔
      c.classify word = some k ∧ (k = .function ∨ k = .windowFunction) ∧
        d.entry? (Text.fold word) k = some e

/-- Every catalog that is made by declarations answers for them. -/
theorem answers_build (ds : List Declaration) : (build ds).Answers (.byRole ds) := by
  have h := madeOf_build ds
  refine ⟨?_, ?_, ?_, ?_, ?_, fun word => ?_, fun folded kinds => ?_, nodup_overlaps _,
    fun word halone k e => h.documented?_iff halone⟩
  · rw [h.keywords, values_declareAll]
  · rw [h.dataTypes, values_declareAll]
  · rw [h.streamOptions, values_declareAll]
  · rw [h.functions, values_declareAll]
  · rw [h.windowFunctions, values_declareAll]
  · rw [Catalog.classify, h.declares]
  · rw [(built_build ds).keyed.mem_overlaps_iff, h.declares]

/-- A name that is a stream option, a function, and a function once more in other letters. -/
example :
    (build [.function ⟨"Format".toList, [], [], none, .math⟩, .streamOption "FORMAT".toList,
      .function ⟨"format".toList, ['f'], [], none, .math⟩]).overlaps =
        [("format".toList, [.streamOption, .function])] := by decide

end Catalog
end SqlAssist
