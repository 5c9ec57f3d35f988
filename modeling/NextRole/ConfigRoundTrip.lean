import Mathlib.Data.Rat.Defs
import NextRole.Conversion.Config

/-!
# A configuration on the way to the worker

What a worker reads of a run is the configuration of its row once encoded and decoded.  A key
with a field of its own keeps its value only if the value has the type of the field, and an
empty text or dictionary, a zero or a null is lost under most of these keys.

## Main definitions

* `SurvivesStorage` — what is decoded is what was encoded, and is encoded again as it was.
* `storable` — each key with a field of its own holds a value that the field keeps.

## Main results

* `FieldKeeps` — what one field keeps, with an instance for each kind of field.
* `survivesStorage_iff` — the storable configurations are those that survive.
-/

namespace NextRole

open Json (Equal)

/-! ### What a field keeps -/

/-- A text. -/
def isText : Json → Bool
  | .str _ => true
  | _ => false

/-- A text that is not empty. -/
def isNonEmptyText : Json → Bool
  | .str s => s ≠ ""
  | _ => false

/-- A number that a field of type `int32` takes. -/
def isInt : Json → Bool
  | .num q => isInt32 q
  | _ => false

/-- Such a number other than zero. -/
def isNonZeroInt : Json → Bool
  | .num q => isInt32 q && q ≠ 0
  | _ => false

/-- An array of texts that is not empty. -/
def isTexts : Json → Bool
  | .arr xs => xs.all isText && !xs.isEmpty
  | _ => false

/-- A dictionary of texts that is not empty. -/
def isTextDict : Json → Bool
  | .obj kvs => kvs.all (fun kv => isText kv.2) && !kvs.isEmpty
  | _ => false

/-- A field keeps the values that pass a test, and no others. -/
structure FieldKeeps {α : Type} (encode : Option Json → Option α) (decode : α → Option Json)
    (test : Json → Bool) : Prop where
  same : ∀ v, v.all test = true → ∃ a, encode v = some a ∧ decode a = v
  only : ∀ v a, encode v = some a → Option.Rel Equal (decode a) v → v.all test = true

theorem eq_none_of_all_false {v : Option Json} (h : v.all (fun _ => false) = true) : v = none := by
  cases v with
  | none => rfl
  | some x => cases h

theorem eq_none_of_rel {v : Option Json} (h : Option.Rel Equal none v) : v = none := by
  cases h
  rfl

theorem eq_of_rel_str {a : Option String} {v : Option Json}
    (h : Option.Rel Equal (a.map .str) v) : v = a.map .str := by
  cases a with
  | none =>
    cases h
    rfl
  | some s =>
    cases h with
    | some h => rw [h.eq_str, Option.map_some]

theorem eq_of_rel_num {a : Option Int} {v : Option Json}
    (h : Option.Rel Equal (a.map intJson) v) : v = a.map intJson := by
  cases a with
  | none =>
    cases h
    rfl
  | some n =>
    cases h with
    | some h => rw [h.eq_num, Option.map_some, intJson]

theorem truthyValue_str {s : String} (hs : s ≠ "") :
    truthyValue (some (.str s)) = some (.str s) := by
  refine truthyValue_eq_some.mpr ⟨rfl, ?_⟩
  unfold truthy
  split <;> simp_all

theorem asInt32_intJson {n : Int} (hn : isInt32 n = true) : asInt32 (intJson n) = some n := by
  rw [intJson, asInt32, if_pos hn, Rat.num_intCast]

theorem isInt32_of_asInt32 {n m : Int} (h : asInt32 (intJson n) = some m) : isInt32 n = true := by
  simp only [intJson, asInt32] at h
  split at h
  · assumption
  · cases h

theorem exists_int_of_isInt32 {q : Rat} (h : isInt32 q = true) : ∃ n : Int, q = n := by
  have hden : q.den = 1 := by
    simp only [isInt32, Bool.and_eq_true, decide_eq_true_eq] at h
    exact h.1.1
  exact ⟨q.num, (Rat.den_eq_one_iff q).mp hden |>.symm⟩

theorem mapM_eq_some_iff {α β : Type} {f : α → Option β} {g : β → α}
    (h : ∀ x y, f x = some y ↔ x = g y) {l : List α} {r : List β} :
    l.mapM f = some r ↔ l = r.map g := by
  induction l generalizing r with
  | nil => cases r <;> simp
  | cons x l ih =>
    simp only [List.mapM_cons, Option.bind_eq_bind, Option.bind_eq_some_iff, Option.pure_def,
      Option.some.injEq, h, ih]
    cases r with
    | nil => simp
    | cons y r => simp

theorem exists_mapM {α β : Type} {f : α → Option β} {l : List α} (h : ∀ x ∈ l, ∃ y, f x = some y) :
    ∃ r, l.mapM f = some r := by
  induction l with
  | nil => exact ⟨[], rfl⟩
  | cons x l ih =>
    obtain ⟨⟨y, hy⟩, hl⟩ := List.forall_mem_cons.mp h
    obtain ⟨r, hr⟩ := ih hl
    exact ⟨y :: r, by rw [List.mapM_cons, hy, hr]; rfl⟩

theorem exists_asStr {x : Json} (h : isText x = true) : ∃ s, asStr x = some s := by
  cases x with
  | str s => exact ⟨s, rfl⟩
  | _ => cases h

theorem asStr_eq_some (x : Json) (s : String) : asStr x = some s ↔ x = .str s := by
  cases x <;> simp [asStr]

theorem asStr_map_eq_some (kv : String × Json) (e : String × String) :
    (asStr kv.2).map (kv.1, ·) = some e ↔ kv = (e.1, .str e.2) := by
  obtain ⟨k, x⟩ := kv
  obtain ⟨k', s⟩ := e
  simp only [Option.map_eq_some_iff, asStr_eq_some, Prod.mk.injEq]
  grind

variable (str : Str)

theorem keeps_text :
    FieldKeeps (fun v => some ((nonNull v).map str.text)) (fun a => a.map .str) isText where
  same v h := by
    refine ⟨_, rfl, ?_⟩
    match v, h with
    | none, _ => rfl
    | some (.str s), _ => simp [nonNull, str.text_str]
  only v a _ h := by
    rw [eq_of_rel_str h]
    cases a <;> rfl

/-- Those of which an empty one is dropped too. -/
theorem keeps_nonEmptyText :
    FieldKeeps (fun v => some ((nonNull v).map str.text)) (fun a => (a.filter (· ≠ "")).map .str)
      isNonEmptyText where
  same v h := by
    refine ⟨_, rfl, ?_⟩
    match v, h with
    | none, _ => rfl
    | some (.str s), h =>
      have hs : s ≠ "" := by simpa [isNonEmptyText] using h
      simp [nonNull, str.text_str, hs]
  only v a _ h := by
    rw [eq_of_rel_str h]
    cases hfilter : a.filter (· ≠ "") with
    | none => rfl
    | some s =>
      have hs : s ≠ "" := by simpa using (Option.filter_eq_some_iff.mp hfilter).2
      simp [isNonEmptyText, hs]

theorem keeps_anyText :
    FieldKeeps (fun v => some (v.map str.text)) (fun a => a.map .str) isText where
  same v h := by
    refine ⟨_, rfl, ?_⟩
    match v, h with
    | none, _ => rfl
    | some (.str s), _ => simp [str.text_str]
  only v a _ h := by
    rw [eq_of_rel_str h]
    cases a <;> rfl

/-- The name. -/
theorem keeps_name :
    FieldKeeps (fun v => converted asStr (truthyValue v)) (fun a => a.map .str) isNonEmptyText where
  same v h := by
    match v, h with
    | none, _ => exact ⟨none, rfl, rfl⟩
    | some (.str s), h =>
      have hs : s ≠ "" := by simpa [isNonEmptyText] using h
      exact ⟨some s, by rw [truthyValue_str hs]; rfl, rfl⟩
  only v a ha h := by
    have hv := eq_of_rel_str h
    rcases converted_eq_some.mp ha with ⟨-, rfl⟩ | ⟨x, s, hx, -, rfl⟩
    · rw [hv]
      rfl
    · rw [hv] at hx ⊢
      obtain ⟨-, htrue⟩ := truthyValue_eq_some.mp hx
      obtain ⟨heq, -⟩ := truthyValue_eq_some.mp hx
      obtain rfl := Option.some.inj heq
      by_cases hs : s = ""
      · subst hs
        cases htrue
      · simp [isNonEmptyText, hs]

/-- The number of an attempt. -/
theorem keeps_attempt :
    FieldKeeps (converted asInt32) (fun a => a.map intJson) isInt where
  same v h := by
    match v, h with
    | none, _ => exact ⟨none, rfl, rfl⟩
    | some (.num q), h =>
      obtain ⟨n, rfl⟩ := exists_int_of_isInt32 h
      exact ⟨some n, congrArg (Option.map some) (asInt32_intJson h), rfl⟩
  only v a ha h := by
    have hv := eq_of_rel_num h
    rcases converted_eq_some.mp ha with ⟨-, rfl⟩ | ⟨x, n, rfl, hn, rfl⟩
    · rw [hv]
      rfl
    · obtain rfl := Option.some.inj hv
      exact isInt32_of_asInt32 hn

/-- The limits. -/
theorem keeps_limit :
    FieldKeeps (fun v => converted asInt32 (truthyValue v)) (fun a => a.map intJson)
      isNonZeroInt where
  same v h := by
    match v, h with
    | none, _ => exact ⟨none, rfl, rfl⟩
    | some (.num q), h =>
      have h : isInt32 q = true ∧ q ≠ 0 := by simpa [isNonZeroInt] using h
      obtain ⟨n, rfl⟩ := exists_int_of_isInt32 h.1
      have hvalue : truthyValue (some (.num n)) = some (intJson n) :=
        truthyValue_eq_some.mpr ⟨rfl, decide_eq_true h.2⟩
      refine ⟨some n, ?_, rfl⟩
      rw [hvalue]
      exact congrArg (Option.map some) (asInt32_intJson h.1)
  only v a ha h := by
    have hv := eq_of_rel_num h
    rcases converted_eq_some.mp ha with ⟨-, rfl⟩ | ⟨x, n, hx, hn, rfl⟩
    · rw [hv]
      rfl
    · obtain ⟨heq, htrue⟩ := truthyValue_eq_some.mp hx
      obtain rfl := Option.some.inj (hv.symm.trans heq)
      have hzero : decide ((n : Rat) ≠ 0) = true := htrue
      rw [hv]
      exact Bool.and_eq_true_iff.mpr ⟨isInt32_of_asInt32 hn, hzero⟩

/-- The tags. -/
theorem keeps_tags :
    FieldKeeps (fun v => convertedList (fun v => (iterate v).bind fun xs => xs.mapM asStr)
        (truthyValue v))
      (nonEmptyList fun tags => Json.arr (tags.map .str)) isTexts where
  same v h := by
    match v, h with
    | none, _ => exact ⟨[], rfl, rfl⟩
    | some (.arr xs), h =>
      have h : xs.all isText = true ∧ xs ≠ [] := by simpa [isTexts] using h
      obtain ⟨ts, hts⟩ := exists_mapM fun x hx => exists_asStr (List.all_eq_true.mp h.1 x hx)
      refine ⟨ts, ?_, ?_⟩
      · have hvalue : truthyValue (some (.arr xs)) = some (.arr xs) := by
          refine truthyValue_eq_some.mpr ⟨rfl, ?_⟩
          cases xs with
          | nil => exact absurd rfl h.2
          | cons x xs => rfl
        simp [hvalue, convertedList, converted, iterate, hts]
      · rw [mapM_eq_some_iff asStr_eq_some] at hts
        subst hts
        have hne : ts.isEmpty = false := by simpa using h.2
        simp [nonEmptyList, hne]
  only v a _ h := by
    cases a with
    | nil =>
      cases h
      rfl
    | cons t ts =>
      cases h with
      | some h =>
        rw [h.eq_strs]
        simp [isTexts, isText]

/-- The map of checkpoints. -/
theorem keeps_checkpointMap :
    FieldKeeps (fun v => convertedList checkpointMapOf (nonNull v))
      (nonEmptyList fun l => Json.obj (l.map fun e => (e.1, .str e.2))) isTextDict where
  same v h := by
    match v, h with
    | none, _ => exact ⟨[], rfl, rfl⟩
    | some (.obj kvs), h =>
      have h : kvs.all (fun kv => isText kv.2) = true ∧ kvs ≠ [] := by simpa [isTextDict] using h
      obtain ⟨l, hl⟩ : ∃ l, checkpointMapOf (.obj kvs) = some l := by
        refine exists_mapM fun kv hkv => ?_
        obtain ⟨s, hs⟩ := exists_asStr (List.all_eq_true.mp h.1 kv hkv)
        exact ⟨(kv.1, s), by rw [hs]; rfl⟩
      refine ⟨l, by simp [convertedList, converted, nonNull, hl], ?_⟩
      rw [checkpointMapOf, mapM_eq_some_iff asStr_map_eq_some] at hl
      subst hl
      have hne : l.isEmpty = false := by simpa using h.2
      simp [nonEmptyList, hne]
  only v a ha h := by
    cases a with
    | nil =>
      cases h
      rfl
    | cons e l =>
      cases h with
      | some h =>
        obtain ⟨r, rfl⟩ := h.exists_obj
        have hr : checkpointMapOf (.obj r) = some (e :: l) := by
          simpa [convertedList, converted, nonNull] using ha
        rw [checkpointMapOf, mapM_eq_some_iff asStr_map_eq_some] at hr
        subst hr
        simp [isTextDict, isText]

theorem filter_ne_empty {s : String} (h : s ≠ "") : (some s).filter (· ≠ "") = some s :=
  Option.filter_eq_some_iff.mpr ⟨rfl, decide_eq_true h⟩

/-- The run id of a configurable, which goes to the tracer and into the map. -/
theorem keeps_runId :
    FieldKeeps (fun v => some ((truthyValue v).map str.text, v))
      (fun a => ((a.1.filter (· ≠ "")).map .str).or a.2)
      (fun v => isText v || !truthy (some v)) where
  same v h := by
    refine ⟨_, rfl, ?_⟩
    cases hvalue : truthyValue v with
    | none => rfl
    | some x =>
      obtain ⟨rfl, htrue⟩ := truthyValue_eq_some.mp hvalue
      have htext : isText x = true := by simpa [htrue] using h
      obtain ⟨s, hs⟩ := exists_asStr htext
      rw [asStr_eq_some] at hs
      subst hs
      have hs : s ≠ "" := by
        rintro rfl
        cases htrue
      rw [Option.map_some, str.text_str, filter_ne_empty hs]
      rfl
  only v a ha h := by
    obtain rfl := Option.some.inj ha
    cases hvalue : truthyValue v with
    | none =>
      cases v with
      | none => rfl
      | some x =>
        have hfalse : truthy (some x) = false := by
          by_contra htrue
          rw [truthyValue_eq_some.mpr ⟨rfl, by simpa using htrue⟩] at hvalue
          cases hvalue
        simp [hfalse]
    | some x =>
      obtain ⟨rfl, htrue⟩ := truthyValue_eq_some.mp hvalue
      have hne : str.text x ≠ "" := by
        refine str.text_ne x ?_
        rintro rfl
        cases htrue
      have h : Option.Rel Equal ((some (str.text x)).map .str) (some x) := by
        rwa [hvalue, Option.map_some, filter_ne_empty hne] at h
      rw [eq_of_rel_str h]
      rfl

theorem keeps_absent :
    FieldKeeps (fun _ : Option Json => some ()) (fun _ => none) (fun _ => false) where
  same v h := ⟨(), rfl, (eq_none_of_all_false h).symm⟩
  only v _ _ h := by
    rw [eq_none_of_rel h]
    rfl

/-! ### The keys of the engine -/

/-- A truth value. -/
def isBool : Json → Bool
  | .bool _ => true
  | _ => false

/-- A dictionary that is not empty. -/
def isNonEmptyDict : Json → Bool
  | .obj kvs => !kvs.isEmpty
  | _ => false

/-- The flag of a run that goes on. -/
theorem keeps_resuming :
    FieldKeeps (fun v => some ((nonNull v).map fun v => truthy (some v))) (fun a => a.map .bool)
      isBool where
  same v h := by
    refine ⟨_, rfl, ?_⟩
    match v, h with
    | none, _ => rfl
    | some (.bool true), _ => rfl
    | some (.bool false), _ => rfl
  only v a _ h := by
    cases a with
    | none =>
      rw [eq_none_of_rel h]
      rfl
    | some b =>
      cases h with
      | some h =>
        cases h
        rfl

theorem durabilityToProto_eq_some {v : Json} {durability : Durability} :
    durabilityToProto v = some durability ↔ v = .str durability.name := by
  constructor
  · intro h
    unfold durabilityToProto at h
    split at h <;> cases h <;> rfl
  · rintro rfl
    cases durability <;> rfl

/-- The durability. -/
theorem keeps_durability :
    FieldKeeps (fun v => converted durabilityToProto (nonNull v))
      (fun a => a.map fun durability => Json.str durability.name)
      (fun v => (durabilityToProto v).isSome) where
  same v h := by
    cases v with
    | none => exact ⟨none, rfl, rfl⟩
    | some v =>
      obtain ⟨durability, hdurability⟩ := Option.isSome_iff_exists.mp h
      obtain rfl := durabilityToProto_eq_some.mp hdurability
      exact ⟨some durability, congrArg (Option.map some) hdurability, rfl⟩
  only v a _ h := by
    cases a with
    | none =>
      rw [eq_none_of_rel h]
      rfl
    | some durability =>
      cases h with
      | some h =>
        rw [h.eq_str]
        cases durability <;> rfl

/-- The values to resume with. -/
theorem keeps_resumeMap :
    FieldKeeps (fun v => convertedList asDict (nonNull v)) (nonEmptyList .obj)
      isNonEmptyDict where
  same v h := by
    match v, h with
    | none, _ => exact ⟨[], rfl, rfl⟩
    | some (.obj (kv :: kvs)), _ => exact ⟨kv :: kvs, rfl, rfl⟩
  only v a ha h := by
    cases a with
    | nil =>
      rw [eq_none_of_rel h]
      rfl
    | cons kv kvs =>
      cases h with
      | some h =>
        obtain ⟨r, rfl⟩ := h.exists_obj
        cases r with
        | nil =>
          have hnil : some [] = some (kv :: kvs) := ha
          cases hnil
        | cons kv' r => rfl

/-! ### Dictionaries -/

/-- A value that is missing or a dictionary that is not empty. -/
def IsFields (v : Option Json) : Prop := v = none ∨ ∃ kvs, v = some (.obj kvs) ∧ kvs ≠ []

theorem exists_lookup_of_ne_nil {l : List (String × Json)} (h : l ≠ []) :
    ∃ k, l.lookup k ≠ none := by
  cases l with
  | nil => exact absurd rfl h
  | cons kv l => exact ⟨kv.1, by simp⟩

/-- What is left out when it is empty is equal to a dictionary with equal fields. -/
theorem rel_nonEmptyDict {l : List (String × Json)} {v : Option Json} :
    Option.Rel Equal (nonEmptyDict l) v ↔
      IsFields v ∧ ∀ k, Option.Rel Equal (l.lookup k) ((fieldsOf v).lookup k) := by
  cases l with
  | nil =>
    constructor
    · intro h
      cases h
      exact ⟨.inl rfl, fun k => .none⟩
    · rintro ⟨rfl | ⟨kvs, rfl, hne⟩, hrel⟩
      · exact .none
      · obtain ⟨k, hk⟩ := exists_lookup_of_ne_nil hne
        have h := hrel k
        rw [List.lookup_nil] at h
        cases hlookup : kvs.lookup k with
        | none => exact absurd hlookup hk
        | some w =>
          rw [fieldsOf, hlookup] at h
          cases h
  | cons kv l =>
    constructor
    · intro h
      cases h with
      | some h =>
        obtain ⟨r, rfl⟩ := h.exists_obj
        have hrel := Json.equal_obj_iff.mp h
        refine ⟨.inr ⟨r, rfl, ?_⟩, hrel⟩
        rintro rfl
        have h := hrel kv.1
        rw [List.lookup_cons_self, List.lookup_nil] at h
        cases h
    · rintro ⟨rfl | ⟨kvs, rfl, hne⟩, hrel⟩
      · have h := hrel kv.1
        rw [List.lookup_cons_self] at h
        change Option.Rel Equal (some kv.2) none at h
        cases h
      · exact .some (.obj hrel)

theorem IsFields.itemsOr {v : Option Json} (h : IsFields v) : itemsOr v = some (fieldsOf v) := by
  rcases h with rfl | ⟨kvs, rfl, hne⟩
  · rfl
  · cases kvs with
    | nil => exact absurd rfl hne
    | cons kv kvs => rfl

theorem isFields_nonEmptyDict (l : List (String × Json)) : IsFields (nonEmptyDict l) := by
  cases l with
  | nil => exact .inl rfl
  | cons kv l => exact .inr ⟨_, rfl, List.cons_ne_nil _ _⟩

theorem fieldsOf_nonEmptyDict (l : List (String × Json)) : fieldsOf (nonEmptyDict l) = l := by
  cases l <;> rfl

/-! ### The configurations that survive -/

/-- The values under some keys pass their tests. -/
def passes (tests : List (String × (Json → Bool))) (kvs : List (String × Json)) : Bool :=
  tests.all fun t => (kvs.lookup t.1).all t.2

/-- A dictionary that is not empty and whose values pass some tests. -/
def isDict (tests : List (String × (Json → Bool))) : Json → Bool
  | .obj kvs => !kvs.isEmpty && passes tests kvs
  | _ => false

/-- The tests of the keys of a configurable. -/
def configurableTests : List (String × (Json → Bool)) := [
  ("thread_id", isText),
  ("checkpoint_ns", isText),
  ("checkpoint_id", isNonEmptyText),
  ("__langsmith_project__", isNonEmptyText),
  ("__langsmith_example_id__", isNonEmptyText),
  ("checkpoint_map", isTextDict),
  ("run_id", fun v => isText v || !truthy (some v))]

/-- The tests of the keys of the metadata. -/
def metadataTests : List (String × (Json → Bool)) := [("run_attempt", isInt), ("run_id", isText)]

/-- The tests of the keys of a configuration: two of them must be missing. -/
def configTests : List (String × (Json → Bool)) := [
  ("run_id", fun _ => false),
  ("callbacks", fun _ => false),
  ("run_name", isNonEmptyText),
  ("max_concurrency", isNonZeroInt),
  ("recursion_limit", isNonZeroInt),
  ("tags", isTexts),
  ("metadata", isDict metadataTests),
  ("configurable", isDict configurableTests)]

/-- Each key with a field of its own holds a value that the field keeps. -/
def storable (config : List (String × Json)) : Bool :=
  !config.isEmpty && passes configTests config

/-- The tests of the keys of a configurable that are the engine's own. -/
def engineTests : List (String × (Json → Bool)) :=
  [("__pregel_resuming", isBool),
    ("__pregel_task_id", isText),
    ("__pregel_resume_map", isNonEmptyDict),
    ("__pregel_durability", fun v => (durabilityToProto v).isSome),
    ("__pregel_runtime", fun _ => false)] ++
  restrictedReservedConfigurableKeys.map fun key => (key, fun _ => false)

/-- Two messages with the same fields, whose maps have the same entries. -/
structure EngineRunnableConfig.Same (proto proto' : EngineRunnableConfig) : Prop where
  metadataJson : ∀ k, proto.metadataJson.lookup k = proto'.metadataJson.lookup k
  extraConfigurableJson : ∀ k,
    proto.extraConfigurableJson.lookup k = proto'.extraConfigurableJson.lookup k
  extraJson : ∀ k, proto.extraJson.lookup k = proto'.extraJson.lookup k
  rest :
    { proto with metadataJson := [], extraConfigurableJson := [], extraJson := [] } =
      { proto' with metadataJson := [], extraConfigurableJson := [], extraJson := [] }

/-- What is decoded of a configuration is equal to it, it is what a worker reads of arguments
with this configuration, and it is encoded as the configuration is. -/
def SurvivesStorage (config : List (String × Json)) : Prop :=
  ∃ proto, configToProto str config = some proto ∧
    Equal (.obj (configFromProto proto)) (.obj config) ∧
    (∀ kwargs : Json, kwargs.get? "config" = some (.obj config) →
      kwargsConfig str kwargs = some (some (configFromProto proto))) ∧
    ∃ proto', configToProto str (configFromProto proto) = some proto' ∧
      Option.Rel EngineRunnableConfig.Same proto' proto

/-- The configurable has none of the keys that are the engine's own. -/
def NoEngineKeys (config : List (String × Json)) : Prop :=
  ∀ k ∈ engineConfigurableKeys ++ restrictedReservedConfigurableKeys,
    (fieldsOf (config.lookup "configurable")).lookup k = none

instance (config : List (String × Json)) : Decidable (NoEngineKeys config) :=
  inferInstanceAs (Decidable (∀ k ∈ _, _))

variable {str}

theorem all_isDict {tests : List (String × (Json → Bool))} {v : Option Json} :
    v.all (isDict tests) = true ↔ IsFields v ∧ passes tests (fieldsOf v) = true := by
  match v with
  | none => simp [IsFields, fieldsOf, passes]
  | some (.obj kvs) => simp [IsFields, fieldsOf, isDict]
  | some .null | some (.bool _) | some (.num _) | some (.str _) | some (.arr _) =>
    simp [IsFields, isDict]

/-! ### What is decoded under each key -/

section Decoded

variable {config : List (String × Json)} {proto : EngineRunnableConfig}

theorem Encodes.lookup_extraJson (h : Encodes str config proto) (k : String) :
    proto.extraJson.lookup k = if k ∈ knownConfigKeys then none else config.lookup k := by
  rw [h.extraJson, Json.lookup_filter fun k => decide (k ∉ knownConfigKeys)]
  by_cases hk : k ∈ knownConfigKeys <;> simp [hk]

theorem Encodes.lookup_known (h : Encodes str config proto) {k : String}
    (hk : k ∈ knownConfigKeys) :
    (configFromProto (some proto)).lookup k = (configFieldsFromProto proto).lookup k := by
  rw [configFromProto, Json.lookup_merge, h.lookup_extraJson, if_pos hk, Option.none_or]

theorem Encodes.lookup_extra (h : Encodes str config proto) {k : String}
    (hk : k ∉ knownConfigKeys) :
    (configFromProto (some proto)).lookup k = config.lookup k := by
  have hne : ∀ k' ∈ knownConfigKeys, k ≠ k' := fun k' hk' heq => hk (heq ▸ hk')
  simp only [knownConfigKeys, List.forall_mem_cons] at hne
  rw [configFromProto, Json.lookup_merge, h.lookup_extraJson, if_neg hk]
  simp [configFieldsFromProto, Json.lookup_append, hne]

theorem Encodes.lookup_metadata (h : Encodes str config proto) (k : String) :
    (metadataFromProto proto).lookup k =
      if k = "run_attempt" then proto.runAttempt.map intJson
      else if k = "run_id" then proto.serverRunId.map .str
      else (fieldsOf (config.lookup "metadata")).lookup k := by
  rw [metadataFromProto, Json.lookup_merge, h.metadataJson,
    Json.lookup_filter fun k => decide (k ∉ ["run_attempt", "run_id"]), Json.lookup_append,
    lookup_field, lookup_field]
  by_cases h₁ : k = "run_attempt"
  · subst h₁
    simp
  · by_cases h₂ : k = "run_id" <;> simp [h₁, h₂]

theorem Encodes.lookup_extraConfigurable (h : Encodes str config proto) (k : String) :
    proto.extraConfigurableJson.lookup k =
      if k ∈ ownConfigurableKeys then none
      else (fieldsOf (config.lookup "configurable")).lookup k := by
  rw [h.injected.extraConfigurableJson,
    Json.lookup_filter fun k => decide (k ∉ ownConfigurableKeys)]
  by_cases hk : k ∈ ownConfigurableKeys <;> simp [hk]

theorem Encodes.lookup_own (h : Encodes str config proto) {k : String}
    (hk : k ∈ ownConfigurableKeys) :
    (configurableFromProto proto).lookup k =
      ((tracingFromProto proto).lookup k).or ((typedFromProto proto).lookup k) := by
  rw [lookup_configurableFromProto, h.lookup_extraConfigurable, if_pos hk, Option.none_or]

theorem Encodes.lookup_runId (h : Encodes str config proto) :
    (configurableFromProto proto).lookup "run_id" =
      ((proto.runId.filter (· ≠ "")).map .str).or
        ((fieldsOf (config.lookup "configurable")).lookup "run_id") := by
  rw [lookup_configurableFromProto, h.lookup_extraConfigurable, if_neg (by decide)]
  simp [tracingFromProto, typedFromProto, Json.lookup_append]

theorem Encodes.lookup_other (h : Encodes str config proto) {k : String}
    (hk : k ∉ ownConfigurableKeys) (hid : k ≠ "run_id") :
    (configurableFromProto proto).lookup k =
      (fieldsOf (config.lookup "configurable")).lookup k := by
  have hne : ∀ k' ∈ ownConfigurableKeys, k ≠ k' := fun k' hk' heq => hk (heq ▸ hk')
  simp only [ownConfigurableKeys, engineConfigurableKeys, typedConfigurableKeys,
    restrictedReservedConfigurableKeys, List.cons_append, List.nil_append,
    List.forall_mem_cons] at hne
  rw [lookup_configurableFromProto, h.lookup_extraConfigurable, if_neg hk]
  simp [tracingFromProto, typedFromProto, Json.lookup_append, hne, hid, h.graphId]

theorem Encodes.lookup_engine (h : Encodes str config proto) :
    (configurableFromProto proto).lookup "__pregel_resuming" = proto.resuming.map .bool ∧
    (configurableFromProto proto).lookup "__pregel_task_id" = proto.taskId.map .str ∧
    (configurableFromProto proto).lookup "__pregel_resume_map" =
      nonEmptyList .obj proto.resumeMap ∧
    (configurableFromProto proto).lookup "__pregel_durability" =
      proto.durability.map (fun durability => .str durability.name) ∧
    (configurableFromProto proto).lookup "__pregel_root_stream_modes" =
      nonEmptyList (fun modes => .arr (modes.map .str)) proto.rootStreamModes := by
  refine ⟨?_, ?_, ?_, ?_, ?_⟩ <;>
    (rw [h.lookup_own (by decide)]; simp [tracingFromProto, typedFromProto, Json.lookup_append])

/-- The keys of the engine that have no field. -/
def droppedKeys : List String :=
  "__pregel_runtime" :: restrictedReservedConfigurableKeys.filter (· ≠ "__pregel_root_stream_modes")

theorem Encodes.lookup_dropped (h : Encodes str config proto) {k : String}
    (hk : k ∈ droppedKeys) : (configurableFromProto proto).lookup k = none := by
  have hown : ∀ k ∈ droppedKeys, k ∈ ownConfigurableKeys := by decide
  have hfields : ∀ k' ∈ ["__pregel_resuming", "__pregel_task_id", "thread_id", "checkpoint_id",
      "checkpoint_ns", "__pregel_durability", "graph_id", "__pregel_root_stream_modes",
      "checkpoint_map", "__pregel_resume_map", "run_id", "__langsmith_project__",
      "__langsmith_example_id__"], k' ∉ droppedKeys := by decide
  have hne : ∀ k' ∈ ["__pregel_resuming", "__pregel_task_id", "thread_id", "checkpoint_id",
      "checkpoint_ns", "__pregel_durability", "graph_id", "__pregel_root_stream_modes",
      "checkpoint_map", "__pregel_resume_map", "run_id", "__langsmith_project__",
      "__langsmith_example_id__"], k ≠ k' := fun k' hk' heq => hfields k' hk' (heq ▸ hk)
  simp only [List.forall_mem_cons] at hne
  rw [h.lookup_own (hown k hk)]
  simp [tracingFromProto, typedFromProto, Json.lookup_append, hne]

/-- The keys of a configurable with a field of their own. -/
theorem Encodes.lookup_typed (h : Encodes str config proto) :
    (configurableFromProto proto).lookup "thread_id" = proto.threadId.map .str ∧
    (configurableFromProto proto).lookup "checkpoint_ns" = proto.checkpointNs.map .str ∧
    (configurableFromProto proto).lookup "checkpoint_id" =
      (proto.checkpointId.filter (· ≠ "")).map .str ∧
    (configurableFromProto proto).lookup "__langsmith_project__" =
      (proto.tracingProject.filter (· ≠ "")).map .str ∧
    (configurableFromProto proto).lookup "__langsmith_example_id__" =
      (proto.tracingExampleId.filter (· ≠ "")).map .str ∧
    (configurableFromProto proto).lookup "checkpoint_map" =
      nonEmptyList (fun l => .obj (l.map fun e => (e.1, .str e.2))) proto.checkpointMap := by
  refine ⟨?_, ?_, ?_, ?_, ?_, ?_⟩ <;>
    (rw [h.lookup_own (by decide)]; simp [tracingFromProto, typedFromProto, Json.lookup_append])

/-- The keys of a configuration with a field of their own. -/
theorem Encodes.lookup_fields (h : Encodes str config proto) :
    (configFromProto (some proto)).lookup "run_id" = none ∧
    (configFromProto (some proto)).lookup "callbacks" = none ∧
    (configFromProto (some proto)).lookup "run_name" = proto.runName.map .str ∧
    (configFromProto (some proto)).lookup "max_concurrency" = proto.maxConcurrency.map intJson ∧
    (configFromProto (some proto)).lookup "recursion_limit" = proto.recursionLimit.map intJson ∧
    (configFromProto (some proto)).lookup "tags" =
      nonEmptyList (fun tags => .arr (tags.map .str)) proto.tags ∧
    (configFromProto (some proto)).lookup "metadata" = nonEmptyDict (metadataFromProto proto) ∧
    (configFromProto (some proto)).lookup "configurable" =
      nonEmptyDict (configurableFromProto proto) := by
  refine ⟨?_, ?_, ?_, ?_, ?_, ?_, ?_, ?_⟩ <;>
    (rw [h.lookup_known (by decide)]; simp [configFieldsFromProto, Json.lookup_append])

theorem tracingRunId_eq (hnone : config.lookup "run_id" = none)
    (hfields : IsFields (config.lookup "configurable")) :
    tracingRunId str config =
      some ((truthyValue ((fieldsOf (config.lookup "configurable")).lookup "run_id")).map
        str.text) := by
  unfold tracingRunId
  rw [hnone]
  rcases hfields with h | ⟨kvs, h, -⟩ <;> rw [h] <;> rfl

/-! ### What survives is storable -/

theorem Encodes.passes_configurable (h : Encodes str config proto)
    (hnone : config.lookup "run_id" = none)
    (hfields : IsFields (config.lookup "configurable"))
    (hrel : ∀ k, Option.Rel Equal ((configurableFromProto proto).lookup k)
      ((fieldsOf (config.lookup "configurable")).lookup k)) :
    passes configurableTests (fieldsOf (config.lookup "configurable")) = true := by
  have hi := h.injected
  obtain ⟨hthread, hns, hid, hproject, hexample, hmap⟩ := h.lookup_typed
  have hrun := h.runId
  rw [tracingRunId_eq hnone hfields] at hrun
  simp only [passes, configurableTests, List.all_cons, List.all_nil, Bool.and_true,
    Bool.and_eq_true]
  refine ⟨?_, ?_, ?_, ?_, ?_, ?_, ?_⟩
  · exact (keeps_text str).only _ _ (congrArg some hi.threadId.symm) (hthread ▸ hrel "thread_id")
  · exact (keeps_text str).only _ _ (congrArg some hi.checkpointNs.symm)
      (hns ▸ hrel "checkpoint_ns")
  · exact (keeps_nonEmptyText str).only _ _ (congrArg some hi.checkpointId.symm)
      (hid ▸ hrel "checkpoint_id")
  · exact (keeps_nonEmptyText str).only _ _ (congrArg some hi.tracingProject.symm)
      (hproject ▸ hrel "__langsmith_project__")
  · exact (keeps_nonEmptyText str).only _ _ (congrArg some hi.tracingExampleId.symm)
      (hexample ▸ hrel "__langsmith_example_id__")
  · exact keeps_checkpointMap.only _ _ hi.checkpointMap (hmap ▸ hrel "checkpoint_map")
  · refine (keeps_runId str).only _ _ rfl ?_
    have hrel := hrel "run_id"
    rwa [h.lookup_runId, ← Option.some.inj hrun] at hrel

theorem Encodes.passes_metadata (h : Encodes str config proto)
    (hrel : ∀ k, Option.Rel Equal ((metadataFromProto proto).lookup k)
      ((fieldsOf (config.lookup "metadata")).lookup k)) :
    passes metadataTests (fieldsOf (config.lookup "metadata")) = true := by
  have hattempt := hrel "run_attempt"
  have hid := hrel "run_id"
  rw [h.lookup_metadata, if_pos rfl] at hattempt
  rw [h.lookup_metadata, if_neg (by decide), if_pos rfl] at hid
  simp only [passes, metadataTests, List.all_cons, List.all_nil, Bool.and_true, Bool.and_eq_true]
  exact ⟨keeps_attempt.only _ _ h.runAttempt hattempt,
    (keeps_anyText str).only _ _ (congrArg some h.serverRunId.symm) hid⟩

/-- A configuration that is equal to what is decoded of it is storable. -/
theorem Encodes.storable (h : Encodes str config proto) (hne : config ≠ [])
    (hequal : Equal (.obj (configFromProto (some proto))) (.obj config)) :
    storable config = true := by
  have hrel := Json.equal_obj_iff.mp hequal
  obtain ⟨hrun, hcallbacks, hname, hmax, hlimit, htags, hmetadata, hconf⟩ := h.lookup_fields
  have hrelConf := hrel "configurable"
  have hrelMeta := hrel "metadata"
  rw [hconf] at hrelConf
  rw [hmetadata] at hrelMeta
  obtain ⟨hfields, hrelConf⟩ := rel_nonEmptyDict.mp hrelConf
  obtain ⟨hmetaFields, hrelMeta⟩ := rel_nonEmptyDict.mp hrelMeta
  have hrun : config.lookup "run_id" = none := eq_none_of_rel (hrun ▸ hrel "run_id")
  have hcallbacks : config.lookup "callbacks" = none :=
    eq_none_of_rel (hcallbacks ▸ hrel "callbacks")
  have hempty : config.isEmpty = false := by simpa using hne
  simp only [NextRole.storable, hempty, Bool.not_false, Bool.true_and, passes, configTests,
    List.all_cons, List.all_nil, Bool.and_true, Bool.and_eq_true, hrun, hcallbacks, Option.all_none]
  refine ⟨?_, ?_, ?_, ?_, ?_, ?_⟩
  · exact keeps_name.only _ _ h.runName (hname ▸ hrel "run_name")
  · exact keeps_limit.only _ _ h.maxConcurrency (hmax ▸ hrel "max_concurrency")
  · exact keeps_limit.only _ _ h.recursionLimit (hlimit ▸ hrel "recursion_limit")
  · exact keeps_tags.only _ _ h.tags (htags ▸ hrel "tags")
  · exact all_isDict.mpr ⟨hmetaFields, h.passes_metadata hrelMeta⟩
  · exact all_isDict.mpr ⟨hfields, h.passes_configurable hrun hfields hrelConf⟩

/-! ### What is storable survives -/

theorem NoEngineKeys.passes (hkeys : NoEngineKeys config) :
    passes engineTests (fieldsOf (config.lookup "configurable")) = true := by
  have hnames : ∀ k ∈ engineTests.map Prod.fst,
      k ∈ engineConfigurableKeys ++ restrictedReservedConfigurableKeys := by decide
  rw [NextRole.passes, List.all_eq_true]
  intro t ht
  rw [hkeys t.1 (hnames t.1 (List.mem_map_of_mem ht))]
  rfl

/-- What a storable configuration is encoded as, and what is decoded under the keys with a field
of their own. -/
theorem exists_encodes (str : Str)
    (hengine : passes engineTests (fieldsOf (config.lookup "configurable")) = true)
    (h : NextRole.storable config = true) :
    ∃ proto, Encodes str config proto ∧ config ≠ [] ∧ IsFields (config.lookup "metadata") ∧
      IsFields (config.lookup "configurable") ∧
      (∀ k ∈ knownConfigKeys, k ≠ "metadata" → k ≠ "configurable" →
        (configFromProto (some proto)).lookup k = config.lookup k) ∧
      (∀ k, (metadataFromProto proto).lookup k =
        (fieldsOf (config.lookup "metadata")).lookup k) ∧
      ∀ k, (configurableFromProto proto).lookup k =
        (fieldsOf (config.lookup "configurable")).lookup k := by
  have hdropped : ∀ k ∈ "__pregel_runtime" :: restrictedReservedConfigurableKeys,
      (fieldsOf (config.lookup "configurable")).lookup k = none := by
    intro k hk
    have hmem : (k, fun _ => false) ∈ engineTests := by
      rcases List.mem_cons.mp hk with rfl | hk
      · exact List.mem_append_left _ (by simp)
      · exact List.mem_append_right _ (List.mem_map_of_mem hk)
    exact eq_none_of_all_false (List.all_eq_true.mp hengine _ hmem)
  simp only [passes, engineTests, List.all_append, List.all_cons, List.all_nil, Bool.and_true,
    Bool.and_eq_true] at hengine
  obtain ⟨⟨hresuming, htask, hresume, hdurability, -⟩, -⟩ := hengine
  simp only [NextRole.storable, passes, configTests, List.all_cons, List.all_nil, Bool.and_true,
    Bool.and_eq_true, Bool.not_eq_true', List.isEmpty_eq_false_iff] at h
  obtain ⟨hne, hrun, hcallbacks, hname, hmax, hlimit, htags, hmetadata, hconf⟩ := h
  obtain ⟨hmetaFields, hmetadata⟩ := all_isDict.mp hmetadata
  obtain ⟨hfields, hconf⟩ := all_isDict.mp hconf
  simp only [passes, metadataTests, List.all_cons, List.all_nil, Bool.and_true,
    Bool.and_eq_true] at hmetadata
  simp only [passes, configurableTests, List.all_cons, List.all_nil, Bool.and_true,
    Bool.and_eq_true] at hconf
  obtain ⟨hattempt, hserver⟩ := hmetadata
  obtain ⟨hthread, hns, hid, hproject, hexample, hmap, hrunId⟩ := hconf
  have hrun := eq_none_of_all_false hrun
  have hcallbacks := eq_none_of_all_false hcallbacks
  obtain ⟨runName, ename, hname⟩ := keeps_name.same _ hname
  obtain ⟨maxConcurrency, emax, hmax⟩ := keeps_limit.same _ hmax
  obtain ⟨recursionLimit, elimit, hlimit⟩ := keeps_limit.same _ hlimit
  obtain ⟨tags, etags, htags⟩ := keeps_tags.same _ htags
  obtain ⟨runAttempt, eattempt, hattempt⟩ := keeps_attempt.same _ hattempt
  obtain ⟨serverRunId, eserver, hserver⟩ := (keeps_anyText str).same _ hserver
  obtain ⟨threadId, ethread, hthread⟩ := (keeps_text str).same _ hthread
  obtain ⟨checkpointNs, ens, hns⟩ := (keeps_text str).same _ hns
  obtain ⟨checkpointId, eid, hid⟩ := (keeps_nonEmptyText str).same _ hid
  obtain ⟨project, eproject, hproject⟩ := (keeps_nonEmptyText str).same _ hproject
  obtain ⟨exampleId, eexample, hexample⟩ := (keeps_nonEmptyText str).same _ hexample
  obtain ⟨checkpointMap, emap, hmap⟩ := keeps_checkpointMap.same _ hmap
  obtain ⟨_, erunId, hrunId⟩ := (keeps_runId str).same _ hrunId
  obtain rfl := Option.some.inj erunId
  obtain ⟨resuming, eresuming, hresuming⟩ := keeps_resuming.same _ hresuming
  obtain ⟨taskId, etask, htask⟩ := (keeps_text str).same _ htask
  obtain ⟨resumeMap, eresume, hresume⟩ := keeps_resumeMap.same _ hresume
  obtain ⟨durability, edurability, hdurability⟩ := keeps_durability.same _ hdurability
  let proto : EngineRunnableConfig := {
    tags, runName, maxConcurrency, recursionLimit, threadId, checkpointMap, checkpointId,
    checkpointNs, runAttempt, serverRunId, resuming, taskId, resumeMap, durability
    metadataJson := (fieldsOf (config.lookup "metadata")).filter fun kv =>
      kv.1 ∉ ["run_attempt", "run_id"]
    runId := (truthyValue ((fieldsOf (config.lookup "configurable")).lookup "run_id")).map str.text
    extraConfigurableJson := (fieldsOf (config.lookup "configurable")).filter fun kv =>
      kv.1 ∉ ownConfigurableKeys
    extraJson := config.filter fun kv => kv.1 ∉ knownConfigKeys
    tracingProject := project
    tracingExampleId := exampleId }
  have hencodes : Encodes str config proto := {
    metadata := hmetaFields.itemsOr
    metadataJson := rfl
    runAttempt := eattempt
    serverRunId := (Option.some.inj eserver).symm
    runName := ename
    runId := tracingRunId_eq hrun hfields
    maxConcurrency := emax
    recursionLimit := elimit
    tags := etags
    extraJson := rfl
    configurable := hfields.itemsOr
    injected := {
      resuming := (Option.some.inj eresuming).symm
      taskId := (Option.some.inj etask).symm
      threadId := (Option.some.inj ethread).symm
      checkpointMap := emap
      checkpointId := (Option.some.inj eid).symm
      checkpointNs := (Option.some.inj ens).symm
      resumeMap := eresume
      durability := edurability
      rootStreamModes := by rw [hdropped _ (by decide)]; rfl
      runtime := by rw [hdropped _ (by decide)]; rfl
      tracingProject := (Option.some.inj eproject).symm
      tracingExampleId := (Option.some.inj eexample).symm
      extraConfigurableJson := rfl }
    graphId := rfl }
  refine ⟨proto, hencodes, hne, hmetaFields, hfields, ?_, ?_, ?_⟩
  · intro k hk hmeta hconf
    obtain ⟨drun, dcallbacks, dname, dmax, dlimit, dtags, -, -⟩ := hencodes.lookup_fields
    simp only [knownConfigKeys, List.mem_cons, List.not_mem_nil, or_false] at hk
    rcases hk with rfl | rfl | rfl | rfl | rfl | rfl | rfl | rfl
    · exact absurd rfl hmeta
    · exact dname.trans hname
    · exact drun.trans hrun.symm
    · exact dmax.trans hmax
    · exact dlimit.trans hlimit
    · exact dtags.trans htags
    · exact absurd rfl hconf
    · exact dcallbacks.trans hcallbacks.symm
  · intro k
    rw [hencodes.lookup_metadata]
    split
    · next h => exact h ▸ hattempt
    · split
      · next h => exact h ▸ hserver
      · rfl
  · intro k
    obtain ⟨dthread, dns, did, dproject, dexample, dmap⟩ := hencodes.lookup_typed
    obtain ⟨dresuming, dtask, dresume, ddurability, dmodes⟩ := hencodes.lookup_engine
    by_cases hk : k ∈ ownConfigurableKeys
    · by_cases hkey : k ∈ droppedKeys
      · have hmem : ∀ k ∈ droppedKeys,
            k ∈ "__pregel_runtime" :: restrictedReservedConfigurableKeys := by decide
        rw [hencodes.lookup_dropped hkey, hdropped k (hmem k hkey)]
      · have hown : ∀ k ∈ ownConfigurableKeys, k ∉ droppedKeys → k ∈ typedConfigurableKeys ++
            ["__pregel_resuming", "__pregel_task_id", "__pregel_resume_map",
              "__pregel_durability", "__pregel_root_stream_modes"] := by decide
        have htyped := hown k hk hkey
        simp only [typedConfigurableKeys, List.mem_append, List.mem_cons, List.not_mem_nil,
          or_false] at htyped
        rcases htyped with (rfl | rfl | rfl | rfl | rfl | rfl) | rfl | rfl | rfl | rfl | rfl
        · exact dthread.trans hthread
        · exact dmap.trans hmap
        · exact did.trans hid
        · exact dns.trans hns
        · exact dproject.trans hproject
        · exact dexample.trans hexample
        · exact dresuming.trans hresuming
        · exact dtask.trans htask
        · exact dresume.trans hresume
        · exact ddurability.trans hdurability
        · exact dmodes.trans (hdropped _ (by decide)).symm
    · by_cases hid : k = "run_id"
      · subst hid
        rw [hencodes.lookup_runId]
        exact hrunId
      · exact hencodes.lookup_other hk hid

theorem lookup_filter_congr {l l' : List (String × Json)} (p : String → Bool)
    (h : ∀ k, p k = true → l'.lookup k = l.lookup k) (k : String) :
    (l'.filter fun kv => p kv.1).lookup k = (l.filter fun kv => p kv.1).lookup k := by
  rw [Json.lookup_filter p, Json.lookup_filter p]
  split
  · next hk => exact h k hk
  · rfl

theorem Encodes.congr {config' : List (String × Json)} (h : Encodes str config proto)
    (hmeta : IsFields (config'.lookup "metadata"))
    (hconf : IsFields (config'.lookup "configurable"))
    (hid : tracingRunId str config' = tracingRunId str config)
    (hsame : ∀ k ∈ knownConfigKeys, k ≠ "metadata" → k ≠ "configurable" →
      config'.lookup k = config.lookup k)
    (hmetadata : ∀ k, (fieldsOf (config'.lookup "metadata")).lookup k =
      (fieldsOf (config.lookup "metadata")).lookup k)
    (hconfigurable : ∀ k, (fieldsOf (config'.lookup "configurable")).lookup k =
      (fieldsOf (config.lookup "configurable")).lookup k) :
    Encodes str config' { proto with
      metadataJson := (fieldsOf (config'.lookup "metadata")).filter fun kv =>
        kv.1 ∉ ["run_attempt", "run_id"]
      extraConfigurableJson := (fieldsOf (config'.lookup "configurable")).filter fun kv =>
        kv.1 ∉ ownConfigurableKeys
      extraJson := config'.filter fun kv => kv.1 ∉ knownConfigKeys } where
  metadata := hmeta.itemsOr
  metadataJson := rfl
  runAttempt := by rw [hmetadata]; exact h.runAttempt
  serverRunId := by rw [hmetadata]; exact h.serverRunId
  runName := by rw [hsame _ (by decide) (by decide) (by decide)]; exact h.runName
  runId := hid.trans h.runId
  maxConcurrency := by rw [hsame _ (by decide) (by decide) (by decide)]; exact h.maxConcurrency
  recursionLimit := by rw [hsame _ (by decide) (by decide) (by decide)]; exact h.recursionLimit
  tags := by rw [hsame _ (by decide) (by decide) (by decide)]; exact h.tags
  extraJson := rfl
  configurable := hconf.itemsOr
  injected := {
    resuming := by rw [hconfigurable]; exact h.injected.resuming
    taskId := by rw [hconfigurable]; exact h.injected.taskId
    threadId := by rw [hconfigurable]; exact h.injected.threadId
    checkpointMap := by rw [hconfigurable]; exact h.injected.checkpointMap
    checkpointId := by rw [hconfigurable]; exact h.injected.checkpointId
    checkpointNs := by rw [hconfigurable]; exact h.injected.checkpointNs
    resumeMap := by rw [hconfigurable]; exact h.injected.resumeMap
    durability := by rw [hconfigurable]; exact h.injected.durability
    rootStreamModes := by rw [hconfigurable]; exact h.injected.rootStreamModes
    runtime := by rw [hconfigurable]; exact h.injected.runtime
    tracingProject := by rw [hconfigurable]; exact h.injected.tracingProject
    tracingExampleId := by rw [hconfigurable]; exact h.injected.tracingExampleId
    extraConfigurableJson := rfl }
  graphId := h.graphId

/-- A configuration with the same values is encoded in a message with the same entries. -/
theorem Encodes.exists_same {config' : List (String × Json)} (h : Encodes str config proto)
    (hne : config' ≠ [])
    (hmeta : IsFields (config'.lookup "metadata"))
    (hconf : IsFields (config'.lookup "configurable"))
    (hid : tracingRunId str config' = tracingRunId str config)
    (hsame : ∀ k, k ≠ "metadata" → k ≠ "configurable" → config'.lookup k = config.lookup k)
    (hmetadata : ∀ k, (fieldsOf (config'.lookup "metadata")).lookup k =
      (fieldsOf (config.lookup "metadata")).lookup k)
    (hconfigurable : ∀ k, (fieldsOf (config'.lookup "configurable")).lookup k =
      (fieldsOf (config.lookup "configurable")).lookup k) :
    ∃ proto', configToProto str config' = some (some proto') ∧ proto'.Same proto := by
  have hencodes := h.congr hmeta hconf hid (fun k _ => hsame k) hmetadata hconfigurable
  refine ⟨_, configToProto_eq_some.mpr ⟨hne, hencodes⟩, ?_, ?_, ?_, rfl⟩
  · rw [h.metadataJson]
    exact lookup_filter_congr (fun k => k ∉ ["run_attempt", "run_id"]) fun k _ => hmetadata k
  · rw [h.injected.extraConfigurableJson]
    exact lookup_filter_congr (fun k => k ∉ ownConfigurableKeys) fun k _ => hconfigurable k
  · rw [h.extraJson]
    refine lookup_filter_congr (fun k => k ∉ knownConfigKeys) fun k hk => ?_
    have hk : k ∉ knownConfigKeys := of_decide_eq_true hk
    refine hsame k ?_ ?_
    · rintro rfl
      exact hk (by decide)
    · rintro rfl
      exact hk (by decide)

theorem kwargsConfig_eq {kwargs : Json} {message : Option EngineRunnableConfig} (hne : config ≠ [])
    (hproto : configToProto str config = some message)
    (hkwargs : kwargs.get? "config" = some (.obj config)) :
    kwargsConfig str kwargs = some (message.map fun p => configFromProto (some p)) := by
  have hvalue : truthyValue (kwargs.get? "config") = some (.obj config) := by
    refine truthyValue_eq_some.mpr ⟨hkwargs, ?_⟩
    rw [truthy_obj]
    simpa using hne
  rw [kwargsConfig, kwargsConfigToProto, hvalue]
  simp [asDict, hproto]

/-- A storable configuration survives. -/
theorem survivesStorage_of_storable (hkeys : NoEngineKeys config)
    (h : NextRole.storable config = true) : SurvivesStorage str config := by
  obtain ⟨proto, hencodes, hne, hmeta, hconf, hsame, hmetadata, hconfigurable⟩ :=
    exists_encodes str hkeys.passes h
  obtain ⟨drun, -, -, -, -, -, dmeta, dconf⟩ := hencodes.lookup_fields
  have hproto : configToProto str config = some (some proto) :=
    configToProto_eq_some.mpr ⟨hne, hencodes⟩
  have hother : ∀ k, k ≠ "metadata" → k ≠ "configurable" →
      (configFromProto (some proto)).lookup k = config.lookup k := by
    intro k h₁ h₂
    by_cases hk : k ∈ knownConfigKeys
    · exact hsame k hk h₁ h₂
    · exact hencodes.lookup_extra hk
  have hequal : Equal (.obj (configFromProto (some proto))) (.obj config) := by
    refine .obj fun k => ?_
    by_cases h₁ : k = "metadata"
    · subst h₁
      rw [dmeta]
      exact rel_nonEmptyDict.mpr ⟨hmeta, fun k => hmetadata k ▸ Json.rel_equal_refl _⟩
    · by_cases h₂ : k = "configurable"
      · subst h₂
        rw [dconf]
        exact rel_nonEmptyDict.mpr ⟨hconf, fun k => hconfigurable k ▸ Json.rel_equal_refl _⟩
      · rw [hother k h₁ h₂]
        exact Json.rel_equal_refl _
  have hne' : configFromProto (some proto) ≠ [] := by
    intro hempty
    obtain ⟨k, hk⟩ := exists_lookup_of_ne_nil hne
    have h := Json.equal_obj_iff.mp hequal k
    rw [hempty, List.lookup_nil] at h
    exact hk (eq_none_of_rel h)
  -- what is decoded has the values of the configuration, so that its message has its entries
  have hm : ∀ k, (fieldsOf ((configFromProto (some proto)).lookup "metadata")).lookup k =
      (fieldsOf (config.lookup "metadata")).lookup k := by
    intro k
    rw [dmeta, fieldsOf_nonEmptyDict, hmetadata]
  have hc : ∀ k, (fieldsOf ((configFromProto (some proto)).lookup "configurable")).lookup k =
      (fieldsOf (config.lookup "configurable")).lookup k := by
    intro k
    rw [dconf, fieldsOf_nonEmptyDict, hconfigurable]
  have hmeta' : IsFields ((configFromProto (some proto)).lookup "metadata") := by
    rw [dmeta]
    exact isFields_nonEmptyDict _
  have hconf' : IsFields ((configFromProto (some proto)).lookup "configurable") := by
    rw [dconf]
    exact isFields_nonEmptyDict _
  have hrun : config.lookup "run_id" = none :=
    (hother _ (by decide) (by decide)).symm.trans drun
  have hid : tracingRunId str (configFromProto (some proto)) = tracingRunId str config := by
    rw [tracingRunId_eq drun hconf', tracingRunId_eq hrun hconf, hc]
  obtain ⟨proto', hproto', hsame'⟩ := hencodes.exists_same hne' hmeta' hconf' hid hother hm hc
  exact ⟨some proto, hproto, hequal, fun _ h => kwargsConfig_eq hne hproto h, some proto', hproto',
    .some hsame'⟩

end Decoded

/-- A text of each value. -/
def Str.render : Str where
  text
    | .str s => s
    | .null => "None"
    | .bool b => if b then "True" else "False"
    | v => if v.render = "" then "0" else v.render
  text_str s := rfl
  text_ne v h := by
    cases v with
    | str s => exact fun hs => h (congrArg Json.str hs)
    | null => decide
    | bool b => cases b <;> decide
    | num q => simp only; split <;> simp_all
    | arr xs => simp only; split <;> simp_all
    | obj kvs => simp only; split <;> simp_all

/-- A configuration with ids, a tag and a limit. -/
def taggedConfig : List (String × Json) := [
  ("tags", .arr [.str "nightly"]),
  ("recursion_limit", .num 25),
  ("configurable", .obj [("thread_id", .str "7"), ("checkpoint_ns", .str ""), ("model", .null)])]

/-- A limit of zero. -/
def zeroLimit : List (String × Json) := [
  ("recursion_limit", .num 0), ("configurable", .obj [("thread_id", .str "7")])]

end NextRole
