import RabbitClient.Amqp.Framing
import RabbitClient.Amqp.TableClone

/-! `amqp_merge_capabilities`: one table laid over another. -/
namespace RabbitClient.Amqp

open Bytes

def amqp_table_get_entry_by_key (t : Table) (key : Bytes) : Option TableEntry :=
  t.find? fun e => e.key = key

/-- The value of a key. -/
def lookup (t : Table) (key : Bytes) : Option FieldValue :=
  (amqp_table_get_entry_by_key t key).map TableEntry.value

/-- A value for the first entry with the key. -/
def setByKey (key : Bytes) (value : FieldValue) : Table → Table
  | [] => []
  | e :: t => if e.key = key then ⟨key, value⟩ :: t else e :: setByKey key value t

/-- A value for an entry that is there, or a new entry behind the others. -/
def place (t : Table) (key : Bytes) (value : FieldValue) : Table :=
  match amqp_table_get_entry_by_key t key with
  | some _ => setByKey key value t
  | none => t ++ [⟨key, value⟩]

/-- `amqp_pool_alloc` returns a null pointer where the two tables have no entry at all. -/
def roomFor (base add : Table) : Except Fault Unit :=
  if base.isEmpty && add.isEmpty then throw (.status .AMQP_STATUS_NO_MEMORY) else pure ()

mutual

/-- Where two tables are merged, that of `base` is taken, which is not there if the one in `temp` comes
from the same table as the other. -/
def mergeValue (base temp : Table) (key : Bytes) : FieldValue → Except Fault Table
  | .table t =>
    match lookup temp key with
    | some (.table _) =>
      match lookup base key with
      | some (.table b) => do
        roomFor b t
        let merged ← mergeEntries b b t
        let clone ← (amqp_table_clone merged).mapError .status
        return place temp key (.table clone)
      | _ => throw .undefined
    | _ => return place temp key (.table t)
  | value => return place temp key value
termination_by structural value => value

def mergeEntry (base temp : Table) : TableEntry → Except Fault Table
  | ⟨key, value⟩ => mergeValue base temp key value
termination_by structural entry => entry

/-- The loop over the entries of the second table. -/
def mergeEntries (base : Table) (temp : Table) : List TableEntry → Except Fault Table
  | [] => return temp
  | e :: add => do
    let temp ← mergeEntry base temp e
    mergeEntries base temp add
termination_by structural add => add

end

def amqp_merge_capabilities (base : Table) (add : Option Table) : Except Fault Table :=
  match add with
  | none => (amqp_table_clone base).mapError .status
  | some add => do
    roomFor base add
    let temp_result ← mergeEntries base base add
    (amqp_table_clone temp_result).mapError .status

variable {t base temp add : Table} {key k : Bytes} {value : FieldValue}

theorem lookup_cons (e : TableEntry) (t : Table) (key : Bytes) :
    lookup (e :: t) key = if e.key = key then some e.value else lookup t key := by
  by_cases h : e.key = key
  · rw [if_pos h, lookup, amqp_table_get_entry_by_key, List.find?_cons_of_pos (by simpa using h)]
    rfl
  · rw [if_neg h, lookup, amqp_table_get_entry_by_key, List.find?_cons_of_neg (by simpa using h)]
    rfl

theorem lookup_setByKey (h : (lookup t key).isSome) :
    lookup (setByKey key value t) k = if key = k then some value else lookup t k := by
  induction t with
  | nil => cases h
  | cons e t ih =>
    rw [setByKey]
    rw [lookup_cons] at h
    by_cases hkey : e.key = key
    · rw [if_pos hkey, lookup_cons, lookup_cons, hkey]
      by_cases hk : key = k
      · rw [if_pos hk]
        exact if_pos hk
      · rw [if_neg hk, if_neg hk]
        exact if_neg hk
    · rw [if_neg hkey] at h
      rw [if_neg hkey, lookup_cons, lookup_cons, ih h]
      by_cases hk : e.key = k
      · rw [if_pos hk, if_pos hk, if_neg (fun h => hkey (hk.trans h.symm))]
      · rw [if_neg hk, if_neg hk]

theorem lookup_behind (h : lookup t key = none) :
    lookup (t ++ [⟨key, value⟩]) k = if key = k then some value else lookup t k := by
  induction t with
  | nil => exact lookup_cons ..
  | cons e t ih =>
    rw [lookup_cons] at h
    by_cases hkey : e.key = key
    · rw [if_pos hkey] at h
      cases h
    · rw [if_neg hkey] at h
      rw [List.cons_append, lookup_cons, lookup_cons, ih h]
      by_cases hk : e.key = k
      · rw [if_pos hk, if_pos hk, if_neg (fun h => hkey (hk.trans h.symm))]
      · rw [if_neg hk, if_neg hk]

theorem lookup_place :
    lookup (place t key value) k = if key = k then some value else lookup t k := by
  rw [place]
  rcases h : amqp_table_get_entry_by_key t key with _ | e
  · exact lookup_behind (by rw [lookup, h]; rfl)
  · exact lookup_setByKey (by rw [lookup, h]; rfl)

theorem keyed_place (ht : tableKeyed t) (hkey : key ≠ []) (hvalue : value.keyed) :
    tableKeyed (place t key value) := by
  have hentry : (TableEntry.mk key value).keyed := by simp [TableEntry.keyed, hkey, hvalue]
  rw [place]
  cases amqp_table_get_entry_by_key t key with
  | none =>
    dsimp only
    induction t with
    | nil => simpa [tableKeyed] using hentry
    | cons e t ih =>
      simp only [tableKeyed, Bool.and_eq_true] at ht
      simp only [List.cons_append, tableKeyed, Bool.and_eq_true]
      exact ⟨ht.1, ih ht.2⟩
  | some _ =>
    dsimp only
    induction t with
    | nil => rfl
    | cons e t ih =>
      simp only [tableKeyed, Bool.and_eq_true] at ht
      rw [setByKey]
      split
      · simp only [tableKeyed, Bool.and_eq_true]
        exact ⟨hentry, ht.2⟩
      · simp only [tableKeyed, Bool.and_eq_true]
        exact ⟨ht.1, ih ht.2⟩

theorem keyed_lookup (ht : tableKeyed t) (h : lookup t key = some value) : value.keyed := by
  induction t with
  | nil => cases h
  | cons e t ih =>
    obtain ⟨key', value'⟩ := e
    simp only [tableKeyed, TableEntry.keyed, Bool.and_eq_true] at ht
    rw [lookup_cons] at h
    split at h
    · cases h
      exact ht.1.2
    · exact ih ht.2 h

mutual

/-- No key is there twice, in tables in it neither. -/
def FieldValue.distinct : FieldValue → Prop
  | .table t => tableDistinct t
  | _ => True

def TableEntry.distinct : TableEntry → Prop
  | ⟨_, value⟩ => value.distinct

def tableDistinct : List TableEntry → Prop
  | [] => True
  | e :: t => (∀ e' ∈ t, e'.key ≠ e.key) ∧ e.distinct ∧ tableDistinct t

end

mutual

/-- A value that is laid over what is there is not one of two empty tables that would be merged. -/
def FieldValue.mergeable (old : Option FieldValue) : FieldValue → Prop
  | .table t =>
    match old with
    | some (.table b) => (b ≠ [] ∨ t ≠ []) ∧ entriesMergeable b t
    | _ => True
  | _ => True

def TableEntry.mergeable (base : Table) : TableEntry → Prop
  | ⟨key, value⟩ => value.mergeable (lookup base key)

def entriesMergeable (base : Table) : List TableEntry → Prop
  | [] => True
  | e :: t => e.mergeable base ∧ entriesMergeable base t

end

/-- Two tables, and any two below one key of them, are not both empty. -/
def Mergeable (base add : Table) : Prop := (base ≠ [] ∨ add ≠ []) ∧ entriesMergeable base add

/-- A value laid over what is there: tables are merged, and else the new value counts. -/
def Overlaid (old : Option FieldValue) (new result : FieldValue) : Prop :=
  match new, old with
  | .table t, some (.table b) => ∃ m, amqp_merge_capabilities b (some t) = .ok m ∧ result = .table m
  | new, _ => result = new

/-- What has been found under `k` in `temp` is laid over with what `add` has there. -/
structure Overlays (base temp add result : Table) (k : Bytes) : Prop where
  kept : lookup add k = none → lookup result k = lookup temp k
  laid : ∀ new, lookup add k = some new →
    ∃ value, lookup result k = some value ∧ Overlaid (lookup base k) new value

theorem clone_ok (h : tableKeyed t) : (amqp_table_clone t).mapError Fault.status = .ok t := by
  rw [table_clone_eq, cloned, if_pos h]
  rfl

theorem lookup_of_distinct (h : ∀ e ∈ t, e.key ≠ key) : lookup t key = none := by
  rw [lookup, amqp_table_get_entry_by_key, List.find?_eq_none.mpr (by simpa using h)]
  rfl

theorem roomFor_eq_ok (h : base ≠ [] ∨ add ≠ []) : roomFor base add = .ok () := by
  rw [roomFor, if_neg]
  · rfl
  · simpa [imp_iff_not_or] using h

theorem roomFor_eq_error (h : ¬ (base ≠ [] ∨ add ≠ [])) :
    roomFor base add = .error (.status .AMQP_STATUS_NO_MEMORY) := by
  rw [roomFor, if_pos]
  · rfl
  · simpa [not_or] using h

mutual

theorem mergeValue_places : ∀ (value : FieldValue) (base temp : Table) (key : Bytes),
    value.distinct → value.keyed → tableKeyed base → lookup temp key = lookup base key →
    (value.mergeable (lookup base key) → ∃ result,
      mergeValue base temp key value = .ok (place temp key result) ∧ result.keyed ∧
        Overlaid (lookup base key) value result) ∧
    (¬ value.mergeable (lookup base key) →
      mergeValue base temp key value = .error (.status .AMQP_STATUS_NO_MEMORY))
  | .table t, base, temp, key => by
    intro hdistinct hkeyed hbase hsame
    rw [mergeValue, hsame]
    rcases hold : lookup base key with _ | old
    · exact ⟨fun _ => ⟨.table t, rfl, hkeyed, rfl⟩, fun h => (h trivial).elim⟩
    cases old with
    | table b =>
      have hb : tableKeyed b := keyed_lookup hbase hold
      obtain ⟨hok, herror⟩ := mergeEntries_overlays t b b hdistinct hkeyed hb hb fun _ _ => rfl
      rw [FieldValue.mergeable]
      constructor
      · rintro ⟨hroom, hentries⟩
        obtain ⟨merged, hmerge, hmerged, -⟩ := hok hentries
        have hclone := clone_ok hmerged
        refine ⟨.table merged, ?_, hmerged, merged, ?_, rfl⟩
        · dsimp only
          rw [roomFor_eq_ok hroom, hmerge]
          change (amqp_table_clone merged).mapError Fault.status >>= _ = _
          rw [hclone]
          rfl
        · rw [amqp_merge_capabilities, roomFor_eq_ok hroom, hmerge]
          exact hclone
      · intro h
        dsimp only
        by_cases hroom : b ≠ [] ∨ t ≠ []
        · rw [roomFor_eq_ok hroom, herror fun hentries => h ⟨hroom, hentries⟩]
          rfl
        · rw [roomFor_eq_error hroom]
          rfl
    | _ => exact ⟨fun _ => ⟨.table t, rfl, hkeyed, rfl⟩, fun h => (h trivial).elim⟩
  | .boolean _, _, _, _ | .i8 _, _, _, _ | .u8 _, _, _, _ | .i16 _, _, _, _ | .u16 _, _, _, _
  | .i32 _, _, _, _ | .u32 _, _, _, _ | .i64 _, _, _, _ | .u64 _, _, _, _ | .f32 _, _, _, _
  | .f64 _, _, _, _ | .decimal _ _, _, _, _ | .utf8 _, _, _, _ | .array _, _, _, _
  | .timestamp _, _, _, _ | .void, _, _, _ | .bytes _, _, _, _ | .other _ _, _, _, _ =>
    fun _ hkeyed _ _ => ⟨fun _ => ⟨_, rfl, hkeyed, rfl⟩, fun h => (h trivial).elim⟩

theorem mergeEntries_overlays : ∀ (add : List TableEntry) (base temp : Table),
    tableDistinct add → tableKeyed add → tableKeyed base → tableKeyed temp →
    (∀ e ∈ add, lookup temp e.key = lookup base e.key) →
    (entriesMergeable base add → ∃ result, mergeEntries base temp add = .ok result ∧
      tableKeyed result ∧ ∀ k, Overlays base temp add result k) ∧
    (¬ entriesMergeable base add →
      mergeEntries base temp add = .error (.status .AMQP_STATUS_NO_MEMORY))
  | [], base, temp => by
    intro _ _ _ htemp _
    exact ⟨fun _ => ⟨temp, rfl, htemp, fun k => ⟨fun _ => rfl, fun _ h => by cases h⟩⟩,
      fun h => (h trivial).elim⟩
  | ⟨key, value⟩ :: add, base, temp => by
    intro hdistinct hkeyed hbase htemp hsame
    obtain ⟨hother, hvalue, hrest⟩ := hdistinct
    change ∀ e' ∈ add, e'.key ≠ key at hother
    simp only [tableKeyed, TableEntry.keyed, Bool.and_eq_true, bne_iff_ne, ne_eq] at hkeyed
    obtain ⟨⟨hkey, hvalue'⟩, hrest'⟩ := hkeyed
    obtain ⟨hplaces, hstops⟩ := mergeValue_places value base temp key hvalue hvalue' hbase
      (hsame _ (List.mem_cons_self ..))
    have hnext {placed : FieldValue} (hplaced : placed.keyed) :=
      mergeEntries_overlays add base (place temp key placed) hrest hrest' hbase
        (keyed_place htemp (by simpa using hkey) hplaced) (by
          intro e he
          rw [lookup_place, if_neg (Ne.symm (hother e he))]
          exact hsame e (List.mem_cons_of_mem _ he))
    rw [entriesMergeable, TableEntry.mergeable, mergeEntries, mergeEntry]
    constructor
    · rintro ⟨hvalueMeets, hentries⟩
      obtain ⟨placed, hplace, hplaced, hover⟩ := hplaces hvalueMeets
      obtain ⟨result, hmerge, hresult, hlookup⟩ := (hnext hplaced).1 hentries
      refine ⟨result, ?_, hresult, fun k => ?_⟩
      · rw [hplace]
        exact hmerge
      obtain ⟨hnone, hsome⟩ := hlookup k
      have hcons : lookup (⟨key, value⟩ :: add) k = if key = k then some value else lookup add k :=
        lookup_cons ..
      rw [lookup_place] at hnone
      by_cases h : key = k
      · subst h
        rw [if_pos rfl] at hcons hnone
        constructor
        · intro h
          rw [hcons] at h
          cases h
        · intro new hnew
          rw [hcons] at hnew
          cases hnew
          exact ⟨placed, hnone (lookup_of_distinct hother), hover⟩
      · rw [if_neg h] at hcons hnone
        constructor
        · rw [hcons]
          exact hnone
        · rw [hcons]
          exact hsome
    · intro h
      by_cases hvalueMeets : value.mergeable (lookup base key)
      · obtain ⟨placed, hplace, hplaced, -⟩ := hplaces hvalueMeets
        rw [hplace]
        exact (hnext hplaced).2 fun hentries => h ⟨hvalueMeets, hentries⟩
      · rw [hstops hvalueMeets]
        rfl

end

/-- A table laid over another one: the keys of the first that are not in the second keep their values,
tables under one key are merged in turn, and for all other keys the second counts. It fails where two
tables to be merged are both empty. That no key is twice in the second table matters: two tables under
one key of it are merged with what `base` has there, which may be nothing. -/
theorem merge_overlays (hdistinct : tableDistinct add) (hadd : tableKeyed add)
    (hbase : tableKeyed base) :
    (Mergeable base add → ∃ result, amqp_merge_capabilities base (some add) = .ok result ∧
      ∀ k, Overlays base base add result k) ∧
    (¬ Mergeable base add → amqp_merge_capabilities base (some add) =
      .error (.status .AMQP_STATUS_NO_MEMORY)) := by
  obtain ⟨hok, herror⟩ :=
    mergeEntries_overlays add base base hdistinct hadd hbase hbase fun _ _ => rfl
  rw [amqp_merge_capabilities]
  constructor
  · rintro ⟨hroom, hentries⟩
    obtain ⟨result, hmerge, hresult, hlookup⟩ := hok hentries
    refine ⟨result, ?_, hlookup⟩
    rw [roomFor_eq_ok hroom, hmerge]
    exact clone_ok hresult
  · intro h
    by_cases hroom : base ≠ [] ∨ add ≠ []
    · rw [roomFor_eq_ok hroom, herror fun hentries => h ⟨hroom, hentries⟩]
      rfl
    · rw [roomFor_eq_error hroom]
      rfl

/-- Two tables below one key are merged, unless they are empty. -/
theorem merge_overlays_nested :
    (∃ result, amqp_merge_capabilities [⟨[97], .table [⟨[98], .boolean true⟩]⟩]
        (some [⟨[97], .table [⟨[99], .boolean true⟩]⟩]) = .ok result ∧
      lookup result [97] = some (.table [⟨[98], .boolean true⟩, ⟨[99], .boolean true⟩])) ∧
    amqp_merge_capabilities [⟨[97], .table []⟩] (some [⟨[97], .table []⟩]) =
      .error (.status .AMQP_STATUS_NO_MEMORY) := by
  have hdistinct : tableDistinct [⟨[97], .table [⟨[99], .boolean true⟩]⟩] := by
    simp [tableDistinct, TableEntry.distinct, FieldValue.distinct]
  have hbase : tableKeyed [⟨[97], .table [⟨[98], .boolean true⟩]⟩] := by decide
  have hempty : tableDistinct [⟨[97], .table []⟩] := by
    simp [tableDistinct, TableEntry.distinct, FieldValue.distinct]
  constructor
  · obtain ⟨result, hmerge, hoverlays⟩ := (merge_overlays hdistinct (by decide) hbase).1
      ⟨.inl (by simp), ⟨.inl (by simp), trivial, trivial⟩, trivial⟩
    obtain ⟨value, hvalue, m, hm, rfl⟩ := (hoverlays [97]).laid _ rfl
    cases hm
    exact ⟨result, hmerge, hvalue⟩
  · refine (merge_overlays hempty (by decide) (by decide)).2 ?_
    rintro ⟨-, ⟨h, -⟩, -⟩
    exact h.elim (fun h => h rfl) (fun h => h rfl)

end RabbitClient.Amqp
