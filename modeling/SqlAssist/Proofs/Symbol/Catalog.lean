import Mathlib.Data.List.Induction
import Mathlib.Data.List.Nodup
import SqlAssist.Dialect.Basic

/-!
Looking names up.

A word's class and a word's documentation come from two searches of the catalog that know nothing
of each other.  They agree because both go by the folded name, and because a table never holds
two declarations under one name.  The second fact is an invariant of how catalogs are made, so
it is stated for the catalogs that are made that way.

The report of names in several roles is gathered one declaration at a time.  What it holds of a name
are the roles that come with it (`rolesIn`), and only where no table has a name twice are these the
roles that the name is declared in, each once.
-/

namespace SqlAssist

theorem SymbolKind.mem_precedence (k : SymbolKind) : k ∈ precedence := by cases k <;> decide

/-! ## One table -/

namespace NameTable

variable {α : Type} {name : α → Text} {t : NameTable α} {folded : Text} {v w : α}

/-- Whether the declarations stand under their own folded names, and no two under one. -/
structure KeyedBy (name : α → Text) (t : NameTable α) : Prop where
  own : ∀ p ∈ t.entries, p.1 = Text.fold (name p.2)
  distinct : t.keys.Nodup

theorem keyedBy_empty : KeyedBy name empty := ⟨by simp [empty], List.nodup_nil⟩

theorem KeyedBy.declare (h : KeyedBy name t) (v : α) : KeyedBy name (t.declare (name v) v) := by
  refine ⟨fun p hp => ?_, ?_⟩
  · rw [NameTable.declare] at hp
    split at hp
    · exact h.own p hp
    · rcases List.mem_append.1 hp with hp | hp
      · exact h.own p hp
      · rw [List.mem_singleton.1 hp]
  · rw [keys_declare]
    split
    · exact h.distinct
    · next hnew =>
      refine List.nodup_append.2 ⟨h.distinct, List.nodup_singleton _, fun a ha b hb => ?_⟩
      rw [List.mem_singleton.1 hb]
      rintro rfl
      exact hnew ha

theorem contains_eq_isSome_get? (t : NameTable α) (folded : Text) :
    t.contains folded = (t.get? folded).isSome := by
  rw [Bool.eq_iff_iff, contains, get?, Option.isSome_map, List.find?_isSome, List.any_eq_true]

theorem KeyedBy.of_get? (h : KeyedBy name t) (hv : t.get? folded = some v) :
    v ∈ t.values ∧ Text.fold (name v) = folded := by
  rw [get?, Option.map_eq_some_iff] at hv
  obtain ⟨p, hp, rfl⟩ := hv
  have hmem := List.mem_of_find?_eq_some hp
  refine ⟨List.mem_map_of_mem hmem, ?_⟩
  rw [← h.own p hmem]
  simpa using List.find?_some hp

theorem KeyedBy.eq_of_fold_eq (h : KeyedBy name t) (hv : v ∈ t.values) (hw : w ∈ t.values)
    (hvw : Text.fold (name v) = Text.fold (name w)) : v = w := by
  obtain ⟨p, hp, rfl⟩ := List.mem_map.1 hv
  obtain ⟨q, hq, rfl⟩ := List.mem_map.1 hw
  rw [← h.own p hp, ← h.own q hq] at hvw
  rw [List.inj_on_of_nodup_map h.distinct hp hq hvw]

end NameTable

/-! ## The whole catalog -/

namespace Catalog

/-- The catalogs that declarations make, in any order. -/
inductive Built : Catalog → Prop
  | empty : Built Catalog.empty
  | keyword {c : Catalog} (h : Built c) (name : Text) : Built (c.addKeyword name)
  | dataType {c : Catalog} (h : Built c) (name : Text) : Built (c.addDataType name)
  | streamOption {c : Catalog} (h : Built c) (name : Text) : Built (c.addStreamOption name)
  | function {c : Catalog} (h : Built c) (e : SymbolEntry) : Built (c.addFunction e)
  | windowFunction {c : Catalog} (h : Built c) (e : SymbolEntry) : Built (c.addWindowFunction e)

structure Keyed (c : Catalog) : Prop where
  keywords : c.keywords.KeyedBy id
  dataTypes : c.dataTypes.KeyedBy id
  streamOptions : c.streamOptions.KeyedBy id
  functions : c.functions.KeyedBy SymbolEntry.name
  windowFunctions : c.windowFunctions.KeyedBy SymbolEntry.name

theorem Built.keyed {c : Catalog} (h : Built c) : c.Keyed := by
  induction h with
  | empty =>
    exact ⟨NameTable.keyedBy_empty, NameTable.keyedBy_empty, NameTable.keyedBy_empty,
      NameTable.keyedBy_empty, NameTable.keyedBy_empty⟩
  | keyword _ name ih => exact { ih with keywords := ih.keywords.declare name }
  | dataType _ name ih => exact { ih with dataTypes := ih.dataTypes.declare name }
  | streamOption _ name ih => exact { ih with streamOptions := ih.streamOptions.declare name }
  | function _ e ih => exact { ih with functions := ih.functions.declare e }
  | windowFunction _ e ih => exact { ih with windowFunctions := ih.windowFunctions.declare e }

theorem Built.foldl {α : Type} {add : Catalog → α → Catalog}
    (hadd : ∀ {c : Catalog}, Built c → ∀ v, Built (add c v)) (vs : List α) {c : Catalog}
    (h : Built c) : Built (vs.foldl add c) := by
  induction vs generalizing c with
  | nil => exact h
  | cons v rest ih => exact ih (hadd h v)

theorem built_toCatalog (d : Declarations) : Built d.toCatalog :=
  Built.foldl .windowFunction d.windowFunctions <| Built.foldl .function d.functions <|
    Built.foldl .streamOption d.streamOptions <| Built.foldl .dataType d.dataTypes <|
      Built.foldl .keyword d.keywords .empty

def documentedIn (c : Catalog) : SymbolKind → List SymbolEntry
  | .function => c.functions.values
  | .windowFunction => c.windowFunctions.values
  | .keyword | .dataType | .streamOption => []

/-- Whether a word is documented in a role, and by which declaration: there is one of that name
only. -/
structure Documents (c : Catalog) (kind : SymbolKind) (word : Text) (e : SymbolEntry) : Prop where
  declared : e ∈ c.documentedIn kind
  named : Text.fold e.name = Text.fold word
  only : ∀ e' ∈ c.documentedIn kind, Text.fold e'.name = Text.fold word → e' = e

theorem documented?_eq_some_iff {c : Catalog} {word : Text} {k : SymbolKind} {e : SymbolEntry} :
    c.documented? word = some (k, e) ↔
      k = .function ∧ c.function? word = some e ∨
        k = .windowFunction ∧ c.function? word = none ∧ c.windowFunction? word = some e := by
  rw [documented?]
  cases c.function? word with
  | some f => simp [eq_comm]
  | none => simp [and_comm, eq_comm (a := k)]

theorem declares_function_iff {c : Catalog} {word : Text} :
    c.declares (Text.fold word) .function = true ↔ ∃ e, c.function? word = some e := by
  rw [declares, NameTable.contains_eq_isSome_get?, Option.isSome_iff_exists]
  rfl

theorem declares_windowFunction_iff {c : Catalog} {word : Text} :
    c.declares (Text.fold word) .windowFunction = true ↔ ∃ e, c.windowFunction? word = some e := by
  rw [declares, NameTable.contains_eq_isSome_get?, Option.isSome_iff_exists]
  rfl

theorem Keyed.documents {c : Catalog} (h : c.Keyed) {word : Text} {kind : SymbolKind}
    {e : SymbolEntry} (hd : c.documented? word = some (kind, e)) :
    c.Documents kind word e ∧ c.declares (Text.fold word) kind = true := by
  rcases documented?_eq_some_iff.1 hd with ⟨rfl, he⟩ | ⟨rfl, -, he⟩
  · obtain ⟨hmem, hname⟩ := h.functions.of_get? he
    refine ⟨⟨hmem, hname, fun f hf hfn => ?_⟩, declares_function_iff.2 ⟨e, he⟩⟩
    exact h.functions.eq_of_fold_eq hf hmem (hfn.trans hname.symm)
  · obtain ⟨hmem, hname⟩ := h.windowFunctions.of_get? he
    refine ⟨⟨hmem, hname, fun f hf hfn => ?_⟩, declares_windowFunction_iff.2 ⟨e, he⟩⟩
    exact h.windowFunctions.eq_of_fold_eq hf hmem (hfn.trans hname.symm)

/-- A word that is classified as a function of either sort is documented as one of that sort:
functions come before window functions in both searches. -/
theorem documented?_of_classify {c : Catalog} {word : Text} {kind : SymbolKind}
    (hkind : kind = .function ∨ kind = .windowFunction) (h : c.classify word = some kind) :
    ∃ e, c.documented? word = some (kind, e) := by
  have hdeclares : c.declares (Text.fold word) kind = true := List.find?_some h
  rcases hkind with rfl | rfl
  · obtain ⟨e, he⟩ := declares_function_iff.1 hdeclares
    exact ⟨e, documented?_eq_some_iff.2 (Or.inl ⟨rfl, he⟩)⟩
  · obtain ⟨e, he⟩ := declares_windowFunction_iff.1 hdeclares
    refine ⟨e, documented?_eq_some_iff.2 (Or.inr ⟨rfl, ?_, he⟩)⟩
    rw [Option.eq_none_iff_forall_ne_some]
    intro f hf
    have hfunction := declares_function_iff.2 ⟨f, hf⟩
    rw [classify, SymbolKind.precedence, List.find?_cons, List.find?_cons, List.find?_cons,
      List.find?_cons, hfunction] at h
    split at h
    · simp at h
    · split at h
      · simp at h
      · split at h <;> simp at h

theorem mem_names_iff {c : Catalog} {folded : Text} {kind : SymbolKind} :
    folded ∈ c.names kind ↔ c.declares folded kind = true := by
  cases kind <;> exact NameTable.contains_iff_mem_keys.symm

/-! ## Names in several roles -/

theorem mem_declared_iff {c : Catalog} {folded : Text} {k : SymbolKind} :
    (folded, k) ∈ c.declared ↔ c.declares folded k = true := by
  rw [declared, List.mem_flatMap]
  constructor
  · rintro ⟨k', -, hmem⟩
    obtain ⟨n, hn, hpair⟩ := List.mem_map.1 hmem
    obtain ⟨rfl, rfl⟩ := Prod.mk.inj hpair
    exact mem_names_iff.1 hn
  · intro h
    exact ⟨k, k.mem_precedence, List.mem_map_of_mem (mem_names_iff.2 h)⟩

def rolesIn (ds : List (Text × SymbolKind)) (folded : Text) : List SymbolKind :=
  (ds.filter fun d => d.1 = folded).map Prod.snd

theorem mem_rolesIn_iff {ds : List (Text × SymbolKind)} {folded : Text} {k : SymbolKind} :
    k ∈ rolesIn ds folded ↔ (folded, k) ∈ ds := by
  rw [rolesIn, List.mem_map]
  constructor
  · rintro ⟨⟨n, k'⟩, hmem, rfl⟩
    obtain ⟨hd, hn⟩ := List.mem_filter.1 hmem
    rwa [← of_decide_eq_true hn]
  · intro h
    exact ⟨(folded, k), List.mem_filter.2 ⟨h, decide_eq_true rfl⟩, rfl⟩

theorem rolesIn_concat (ds : List (Text × SymbolKind)) (d : Text × SymbolKind) (folded : Text) :
    rolesIn (ds ++ [d]) folded = rolesIn ds folded ++ if d.1 = folded then [d.2] else [] := by
  rw [rolesIn, List.filter_append, List.map_append]
  by_cases hd : d.1 = folded <;> simp [rolesIn, hd]

theorem nodup_eraseDups (names : List Text) : names.eraseDups.Nodup := by
  match names with
  | [] => exact List.nodup_nil
  | n :: rest =>
    rw [List.eraseDups_cons, List.nodup_cons, List.mem_eraseDups]
    refine ⟨fun hmem => ?_, nodup_eraseDups _⟩
    simpa using (List.mem_filter.1 hmem).2
termination_by names.length
decreasing_by exact Nat.lt_succ_of_le (List.length_filter_le _ _)

theorem eraseDups_concat (names : List Text) (n : Text) :
    (names ++ [n]).eraseDups =
      if n ∈ names.eraseDups then names.eraseDups else names.eraseDups ++ [n] := by
  rw [List.eraseDups_append]
  by_cases hn : n ∈ names <;> simp [hn, List.removeAll, List.eraseDups_cons]

/-- A name gets its role, and the other names keep theirs. -/
theorem addRole_map {names : List Text} (hnames : names.Nodup) (roles : Text → List SymbolKind)
    {d : Text × SymbolKind} (hnew : d.1 ∉ names → roles d.1 = []) :
    addRole (names.map fun n => (n, roles n)) d =
      (if d.1 ∈ names then names else names ++ [d.1]).map
        fun n => (n, roles n ++ if d.1 = n then [d.2] else []) := by
  induction names with
  | nil => simp [addRole, hnew]
  | cons n rest ih =>
    obtain ⟨hn, hrest⟩ := List.nodup_cons.1 hnames
    rw [List.map_cons, addRole]
    by_cases hd : n = d.1
    · have hkept : (rest.map fun m => (m, roles m)) =
          rest.map fun m => (m, roles m ++ if d.1 = m then [d.2] else []) := by
        refine List.map_congr_left fun m hm => ?_
        rw [if_neg (fun h => hn (by rwa [hd, h])), List.append_nil]
      rw [if_pos hd, hkept, if_pos (by simp [hd]), List.map_cons, if_pos hd.symm]
    · have hmem : d.1 ∈ n :: rest ↔ d.1 ∈ rest := by simp [Ne.symm hd]
      rw [if_neg hd, ih hrest fun h => hnew (mt hmem.1 h)]
      simp only [hmem]
      split <;> simp [Ne.symm hd]

/-- Declarations are gathered by name. -/
theorem foldl_addRole (ds : List (Text × SymbolKind)) :
    ds.foldl addRole [] = (ds.map Prod.fst).eraseDups.map fun n => (n, rolesIn ds n) := by
  induction ds using List.reverseRecOn with
  | nil => rfl
  | append_singleton ds d ih =>
    have hnew : d.1 ∉ (ds.map Prod.fst).eraseDups → rolesIn ds d.1 = [] := by
      intro hd
      refine List.eq_nil_iff_forall_not_mem.2 fun k hk => hd (List.mem_eraseDups.2 ?_)
      exact List.mem_map.2 ⟨(d.1, k), mem_rolesIn_iff.1 hk, rfl⟩
    rw [List.foldl_concat, ih, addRole_map (nodup_eraseDups _) _ hnew, List.map_append,
      List.map_singleton, eraseDups_concat]
    simp only [rolesIn_concat]

theorem nodup_roles (c : Catalog) : (c.roles.map Prod.fst).Nodup := by
  rw [roles, foldl_addRole, List.map_map]
  exact (List.map_id (c.declared.map Prod.fst).eraseDups).symm ▸ nodup_eraseDups _

theorem mem_roles_iff {c : Catalog} {folded : Text} {kinds : List SymbolKind} :
    (folded, kinds) ∈ c.roles ↔
      (∃ k, c.declares folded k = true) ∧ kinds = rolesIn c.declared folded := by
  rw [roles, foldl_addRole, List.mem_map]
  constructor
  · rintro ⟨n, hn, hpair⟩
    obtain ⟨rfl, rfl⟩ := Prod.mk.inj hpair
    obtain ⟨⟨n, k⟩, hd, rfl⟩ := List.mem_map.1 (List.mem_eraseDups.1 hn)
    exact ⟨⟨k, mem_declared_iff.1 hd⟩, rfl⟩
  · rintro ⟨⟨k, hk⟩, rfl⟩
    exact ⟨folded, List.mem_eraseDups.2 (List.mem_map_of_mem (mem_declared_iff.2 hk)), rfl⟩

theorem mem_overlaps_iff_rolesIn {c : Catalog} {folded : Text} {kinds : List SymbolKind} :
    (folded, kinds) ∈ c.overlaps ↔ 2 ≤ kinds.length ∧ kinds = rolesIn c.declared folded := by
  rw [overlaps, List.mem_filter, mem_roles_iff, decide_eq_true_iff]
  constructor
  · rintro ⟨⟨-, hkinds⟩, htwo⟩
    exact ⟨htwo, hkinds⟩
  · rintro ⟨htwo, rfl⟩
    obtain ⟨k, hk⟩ := List.exists_mem_of_length_pos (Nat.lt_of_lt_of_le Nat.two_pos htwo)
    exact ⟨⟨⟨k, mem_declared_iff.1 (mem_rolesIn_iff.1 hk)⟩, rfl⟩, htwo⟩

/-- Where no table has a name twice, a name comes with each of its roles once. -/
theorem rolesIn_declared {c : Catalog} (h : ∀ k, (c.names k).Nodup) (folded : Text) :
    rolesIn c.declared folded = SymbolKind.precedence.filter (c.declares folded) := by
  have hrole : ∀ k, rolesIn ((c.names k).map fun n => (n, k)) folded =
      if c.declares folded k = true then [k] else [] := by
    intro k
    rw [rolesIn, List.filter_map, List.map_map]
    show ((c.names k).filter fun n => n = folded).map (fun _ => k) = _
    rw [List.filter_eq, List.map_replicate]
    by_cases hk : c.declares folded k = true
    · rw [if_pos hk, List.count_eq_one_of_mem (h k) (mem_names_iff.2 hk)]
      rfl
    · rw [if_neg hk, List.count_eq_zero_of_not_mem fun hmem => hk (mem_names_iff.1 hmem)]
      rfl
  have hall : ∀ ks : List SymbolKind,
      rolesIn (ks.flatMap fun k => (c.names k).map fun n => (n, k)) folded =
        ks.filter (c.declares folded) := by
    intro ks
    induction ks with
    | nil => rfl
    | cons k rest ih =>
      rw [List.flatMap_cons, rolesIn, List.filter_append, List.map_append, List.filter_cons, ← ih]
      show rolesIn _ folded ++ rolesIn _ folded = _
      rw [hrole]
      split <;> rfl
  exact hall _

theorem Keyed.nodup_names {c : Catalog} (h : c.Keyed) (k : SymbolKind) : (c.names k).Nodup := by
  cases k with
  | keyword => exact h.keywords.distinct
  | dataType => exact h.dataTypes.distinct
  | streamOption => exact h.streamOptions.distinct
  | function => exact h.functions.distinct
  | windowFunction => exact h.windowFunctions.distinct

/-- What is reported is that a name is declared in several roles, and in which. -/
theorem Keyed.mem_overlaps_iff {c : Catalog} (h : c.Keyed) {folded : Text}
    {kinds : List SymbolKind} :
    (folded, kinds) ∈ c.overlaps ↔
      2 ≤ kinds.length ∧ kinds = SymbolKind.precedence.filter (c.declares folded) := by
  rw [mem_overlaps_iff_rolesIn, rolesIn_declared h.nodup_names]

/-- A name that is not reported is declared in one role at most. -/
theorem eq_of_declares {c : Catalog} {folded : Text} (h : folded ∉ c.overlaps.map Prod.fst)
    {k k' : SymbolKind} (hk : c.declares folded k = true) (hk' : c.declares folded k' = true) :
    k = k' := by
  have hone : ¬ 2 ≤ (rolesIn c.declared folded).length := fun htwo =>
    h (List.mem_map_of_mem (mem_overlaps_iff_rolesIn.2 ⟨htwo, rfl⟩))
  have hmem := mem_rolesIn_iff.2 (mem_declared_iff.2 hk)
  have hmem' := mem_rolesIn_iff.2 (mem_declared_iff.2 hk')
  match hroles : rolesIn c.declared folded with
  | [] => rw [hroles] at hmem; simp at hmem
  | [a] =>
    rw [hroles] at hmem hmem'
    rw [List.mem_singleton.1 hmem, List.mem_singleton.1 hmem']
  | a :: b :: rest => rw [hroles] at hone; simp at hone

/-- A word that is not reported is classified in the role that it has documentation in. -/
theorem classify_of_declares_alone {c : Catalog} {word : Text}
    (h : Text.fold word ∉ c.overlaps.map Prod.fst) {kind : SymbolKind}
    (hd : c.declares (Text.fold word) kind = true) : c.classify word = some kind := by
  have hsome : (c.classify word).isSome = true := by
    rw [classify, List.find?_isSome]
    exact ⟨kind, kind.mem_precedence, hd⟩
  obtain ⟨k, hk⟩ := Option.isSome_iff_exists.1 hsome
  rw [hk, eq_of_declares h (List.find?_some hk) hd]

theorem classify_of_declares {c : Catalog} (h : c.overlaps = []) {word : Text}
    {kind : SymbolKind} (hd : c.declares (Text.fold word) kind = true) :
    c.classify word = some kind :=
  classify_of_declares_alone (by simp [h]) hd

end Catalog

end SqlAssist
