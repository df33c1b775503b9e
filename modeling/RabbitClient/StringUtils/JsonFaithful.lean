import RabbitClient.Library.JsonRules
import RabbitClient.StringUtils.ToStringJson

/-! The printers fail exactly on values of a type without a printer, and what they print of
values other than doubles reads back as the same tree. -/
namespace RabbitClient.StringUtils
open Bytes JsonReader

variable {Double : Type}

/-- Induction over a tree, with the values inside a list taken by membership. -/
@[elab_as_elim]
theorem Any.nested {P : Any Double → Prop} (nullptr : P .nullptr) (int : ∀ x, P (.int x))
    (unsigned : ∀ x, P (.unsigned x)) (uint64 : ∀ x, P (.uint64 x))
    (double : ∀ x, P (.double x)) (char_ptr : ∀ s, P (.char_ptr s))
    (string : ∀ s, P (.string s)) (vector : ∀ vc, (∀ item ∈ vc, P item) → P (.vector vc))
    (pairs : ∀ vc, (∀ it ∈ vc, P it.2) → P (.pairs vc)) (other : ∀ name, P (.other name))
    (v : Any Double) : P v := by
  refine @Any.rec Double P (fun vc => ∀ item ∈ vc, P item) (fun vc => ∀ it ∈ vc, P it.2)
    (fun it => P it.2) nullptr int unsigned uint64 double char_ptr string vector pairs other
    ?_ ?_ ?_ ?_ ?_ v
  · intro item h
    cases h
  · intro item vc hi hvc
    exact List.forall_mem_cons.mpr ⟨hi, hvc⟩
  · intro it h
    cases h
  · intro it vc hi hvc
    exact List.forall_mem_cons.mpr ⟨hi, hvc⟩
  · intro key item hi
    exact hi

mutual

/-- `P` holds of every leaf and `K` of every key, at every depth. -/
def All (P : Any Double → Prop) (K : Bytes → Prop) : Any Double → Prop
  | .vector vc => AllElements P K vc
  | .pairs vc => AllMembers P K vc
  | leaf => P leaf

def AllElements (P : Any Double → Prop) (K : Bytes → Prop) : List (Any Double) → Prop
  | [] => True
  | item :: vc => All P K item ∧ AllElements P K vc

def AllMember (P : Any Double → Prop) (K : Bytes → Prop) : Bytes × Any Double → Prop
  | (key, item) => K key ∧ All P K item

def AllMembers (P : Any Double → Prop) (K : Bytes → Prop) : List (Bytes × Any Double) → Prop
  | [] => True
  | it :: vc => AllMember P K it ∧ AllMembers P K vc

end

/-- The leaf has one of the types of `any_visitor`. -/
def Registered : Any Double → Prop
  | .other _ => False
  | _ => True

/-- No control characters. -/
def PlainText (s : Bytes) : Prop := ∀ c ∈ s, 0x20 ≤ c

instance (s : Bytes) : Decidable (PlainText s) := List.decidableBAll _ s

def PlainKey (key : Bytes) : Prop := ∀ c ∈ key, 0x20 ≤ c ∧ c ≠ quote ∧ c ≠ backslash

instance (key : Bytes) : Decidable (PlainKey key) := List.decidableBAll _ key

/-- No double, and no control character in a string. -/
def Readable : Any Double → Prop
  | .double _ => False
  | .char_ptr s => PlainText s.val
  | .string s => PlainText s
  | _ => True

mutual

/-- The JSON value a tree stands for; doubles and values without a printer stand for none. -/
def tree : Any Double → Option Json
  | .nullptr => some .null
  | .int x => some (.number x.toInt 0)
  | .unsigned x => some (.number x.toNat 0)
  | .uint64 x => some (.number x.toNat 0)
  | .double _ => none
  | .char_ptr s => some (.string s.val)
  | .string s => some (.string s)
  | .vector vc => (treeElements vc).map .array
  | .pairs vc => (treeMembers vc).map .object
  | .other _ => none

def treeElements : List (Any Double) → Option (List Json)
  | [] => some []
  | item :: vc => do return (← tree item) :: (← treeElements vc)

def treeMember : Bytes × Any Double → Option (Bytes × Json)
  | (key, item) => do return (key, ← tree item)

def treeMembers : List (Bytes × Any Double) → Option (List (Bytes × Json))
  | [] => some []
  | it :: vc => do return (← treeMember it) :: (← treeMembers vc)

end

/-- The call returns a text under the condition and throws `std::invalid_argument` otherwise. -/
def ReturnsIff (p : Prop) (r : Except Exception Bytes) : Prop :=
  (p ∧ ∃ text, r = .ok text) ∨ (¬p ∧ ∃ what, r = .error (.invalid_argument what))

theorem ReturnsIff.bind {p q : Prop} {r : Except Exception Bytes}
    {f : Bytes → Except Exception Bytes} (h : ReturnsIff p r)
    (hf : ∀ text, ReturnsIff q (f text)) : ReturnsIff (p ∧ q) (r >>= f) := by
  rcases h with ⟨hp, text, rfl⟩ | ⟨hp, what, rfl⟩
  · rcases hf text with ⟨hq, ht⟩ | ⟨hq, hw⟩
    · exact Or.inl ⟨⟨hp, hq⟩, ht⟩
    · exact Or.inr ⟨fun h => hq h.2, hw⟩
  · exact Or.inr ⟨fun h => hp h.1, what, rfl⟩

theorem returnsIff_ok (text : Bytes) : ReturnsIff True (.ok text) :=
  Or.inl ⟨trivial, text, rfl⟩

theorem ReturnsIff.map {p : Prop} {r : Except Exception Bytes} (h : ReturnsIff p r)
    (f : Bytes → Bytes) : ReturnsIff p (r >>= fun text => .ok (f text)) := by
  have hb := h.bind (fun text => returnsIff_ok (f text))
  simpa using hb

theorem to_string_ok (fmt : FixedFormat Double) (num : Double) :
    ∃ text, to_string fmt num = .ok text := by
  have hc : ∃ c ∈ fmt.fixed (15 - (if fmt.abs_ge_one num then fmt.log10_abs num else 1) - 1) num,
      c ≠ ofChar '0' := by
    by_cases h : fmt.abs_ge_one num = true
    · exact fmt.fixed_ge_one _ num h
    · apply fmt.fixed_point
      rw [if_neg h]
      omega
  simp only [to_string]
  split
  · rename_i hnil
    obtain ⟨c, hc, h0⟩ := hc
    have hall := List.dropWhile_eq_nil_iff.mp hnil c (List.mem_reverse.mpr hc)
    exact absurd (by simpa using hall) h0
  · split
    · exact ⟨_, rfl⟩
    · exact ⟨_, rfl⟩

/-- The exceptions thrown for a missing printer. -/
def Invalid (missing : Bytes → Exception) : Prop :=
  ∀ name, ∃ what, missing name = .invalid_argument what

theorem elements_returns (fmt : FixedFormat Double) {vc : List (Any Double)}
    (h : ∀ item ∈ vc, ∀ missing, Invalid missing →
      ReturnsIff (All Registered (fun _ => True) item) (any_visitor fmt missing item))
    (first : Bool) :
    ReturnsIff (AllElements Registered (fun _ => True) vc) (elements fmt first vc) := by
  induction vc generalizing first with
  | nil => exact returnsIff_ok []
  | cons item vc ih =>
    obtain ⟨hi, hvc⟩ := List.forall_mem_cons.mp h
    apply (hi _ (fun name => ⟨_, rfl⟩)).bind
    intro text
    exact (ih hvc false).map _

theorem members_returns (fmt : FixedFormat Double) {vc : List (Bytes × Any Double)}
    (h : ∀ it ∈ vc, ∀ missing, Invalid missing →
      ReturnsIff (All Registered (fun _ => True) it.2) (any_visitor fmt missing it.2))
    (first : Bool) :
    ReturnsIff (AllMembers Registered (fun _ => True) vc) (members fmt first vc) := by
  induction vc generalizing first with
  | nil => exact returnsIff_ok []
  | cons it vc ih =>
    obtain ⟨key, item⟩ := it
    obtain ⟨hi, hvc⟩ := List.forall_mem_cons.mp h
    have hm : ReturnsIff (AllMember Registered (fun _ => True) (key, item))
        (member fmt first (key, item)) := by
      simp only [AllMember, true_and, member]
      exact (hi _ (fun name => ⟨_, rfl⟩)).map _
    apply hm.bind
    intro text
    exact (ih hvc false).map _

theorem any_visitor_returns (fmt : FixedFormat Double) (v : Any Double) :
    ∀ missing, Invalid missing →
      ReturnsIff (All Registered (fun _ => True) v) (any_visitor fmt missing v) := by
  induction v using Any.nested with
  | nullptr =>
    intro missing _
    exact returnsIff_ok _
  | int x =>
    intro missing _
    exact returnsIff_ok _
  | unsigned x =>
    intro missing _
    exact returnsIff_ok _
  | uint64 x =>
    intro missing _
    exact returnsIff_ok _
  | double x =>
    intro missing _
    exact Or.inl ⟨trivial, to_string_ok fmt x⟩
  | char_ptr s =>
    intro missing _
    exact returnsIff_ok _
  | string s =>
    intro missing _
    exact returnsIff_ok _
  | vector vc ih =>
    intro missing _
    exact (elements_returns fmt ih true).map _
  | pairs vc ih =>
    intro missing _
    exact (members_returns fmt ih true).map _
  | other name =>
    intro missing hm
    obtain ⟨what, hw⟩ := hm name
    refine Or.inr ⟨id, what, ?_⟩
    simp only [any_visitor, hw]

theorem ok_of_bind {r : Except Exception Bytes} {f : Bytes → Except Exception Bytes}
    {text : Bytes} (h : r >>= f = .ok text) : ∃ t, r = .ok t ∧ f t = .ok text := by
  cases r with
  | error e => cases h
  | ok t => exact ⟨t, rfl, h⟩

theorem readsString_key {key : Bytes} (h : PlainKey key) : ReadsString key key := by
  induction key with
  | nil => exact readsString_nil
  | cons c key ih =>
    obtain ⟨⟨hc, hq, hb⟩, hkey⟩ := List.forall_mem_cons.mp h
    exact (ih hkey).plain hc hq hb

theorem readsString_escape {s : Bytes} (h : PlainText s) :
    ReadsString (s.flatMap escape) s := by
  induction s with
  | nil => exact readsString_nil
  | cons c s ih =>
    obtain ⟨hc, hs⟩ := List.forall_mem_cons.mp h
    by_cases he : c = quote ∨ c = backslash
    · have hesc : escape c = [backslash, c] := if_pos he
      simpa [hesc] using (ih hs).escaped he
    · have hesc : escape c = [c] := if_neg he
      obtain ⟨hq, hb⟩ := not_or.mp he
      simpa [hesc] using (ih hs).plain hc hq hb

theorem reads_quoted {s : Bytes} (h : PlainText s) : Reads (quoted s) (.string s) :=
  reads_string (readsString_escape h)

theorem reads_signed (x : Int) : Reads (signed x) (.number x 0) := by
  by_cases hx : x < 0
  · have hn : -(x.natAbs : Int) = x := by omega
    have hr := reads_negative x.natAbs
    rw [hn] at hr
    simpa [signed, hx, ascii] using hr
  · have hn : (x.natAbs : Int) = x := by omega
    have hr := reads_decimal x.natAbs
    rw [hn] at hr
    simpa [signed, hx] using hr

/-- What is printed of the value reads as its tree. -/
def ReadsBack (fmt : FixedFormat Double) (v : Any Double) : Prop :=
  ∀ missing text, All Readable PlainKey v → any_visitor fmt missing v = .ok text →
    ∃ j, tree v = some j ∧ Reads text j

theorem elements_readBack {fmt : FixedFormat Double} {item : Any Double}
    {vc : List (Any Double)} (h : ∀ v ∈ item :: vc, ReadsBack fmt v) {first : Bool}
    {text : Bytes} (hall : AllElements Readable PlainKey (item :: vc))
    (ht : elements fmt first (item :: vc) = .ok text) :
    ∃ l body, treeElements (item :: vc) = some l ∧ text = separator first ++ body ∧
      ReadsElements body l := by
  induction vc generalizing item first text with
  | nil =>
    obtain ⟨t, hitem, ht⟩ := ok_of_bind ht
    obtain ⟨j, hj, hr⟩ := h item (by simp) _ t hall.1 hitem
    cases ht
    exact ⟨[j], t, by simp [treeElements, hj], by simp, readsElements_last hr⟩
  | cons next vc ih =>
    obtain ⟨t, hitem, ht⟩ := ok_of_bind ht
    obtain ⟨j, hj, hr⟩ := h item (by simp) _ t hall.1 hitem
    obtain ⟨rest, hrest, ht⟩ := ok_of_bind ht
    obtain ⟨l, body, hl, rfl, hbody⟩ := ih (List.forall_mem_cons.mp h).2 hall.2 hrest
    cases ht
    refine ⟨j :: l, t ++ comma :: 0x20 :: body, ?_, ?_, hbody.cons hr⟩
    · rw [treeElements, hj, hl]
      rfl
    · simp [separator, ascii, comma, ofChar]

theorem members_readBack {fmt : FixedFormat Double} {it : Bytes × Any Double}
    {vc : List (Bytes × Any Double)} (h : ∀ m ∈ it :: vc, ReadsBack fmt m.2) {first : Bool}
    {text : Bytes} (hall : AllMembers Readable PlainKey (it :: vc))
    (ht : members fmt first (it :: vc) = .ok text) :
    ∃ l body, treeMembers (it :: vc) = some l ∧ text = separator first ++ body ∧
      ReadsMembers body l := by
  induction vc generalizing it first text with
  | nil =>
    obtain ⟨key, item⟩ := it
    obtain ⟨t, hmember, ht⟩ := ok_of_bind ht
    obtain ⟨u, hitem, hmember⟩ := ok_of_bind hmember
    obtain ⟨j, hj, hr⟩ := h (key, item) (by simp) _ u hall.1.2 hitem
    cases hmember
    cases ht
    refine ⟨[(key, j)], memberText key u, ?_, ?_,
      readsMembers_last (readsString_key hall.1.1) hr⟩
    · simp [treeMembers, treeMember, hj]
    · simp [memberText, ascii, quote, colon, ofChar]
  | cons next vc ih =>
    obtain ⟨key, item⟩ := it
    obtain ⟨t, hmember, ht⟩ := ok_of_bind ht
    obtain ⟨u, hitem, hmember⟩ := ok_of_bind hmember
    obtain ⟨j, hj, hr⟩ := h (key, item) (by simp) _ u hall.1.2 hitem
    obtain ⟨rest, hrest, ht⟩ := ok_of_bind ht
    obtain ⟨l, body, hl, rfl, hbody⟩ := ih (List.forall_mem_cons.mp h).2 hall.2 hrest
    cases hmember
    cases ht
    refine ⟨(key, j) :: l, memberText key u ++ comma :: 0x20 :: body, ?_, ?_,
      hbody.cons (readsString_key hall.1.1) hr⟩
    · rw [treeMembers, treeMember, hj, hl]
      rfl
    · simp [memberText, separator, ascii, quote, colon, comma, ofChar]

theorem any_visitor_readBack (fmt : FixedFormat Double) (v : Any Double) :
    ReadsBack fmt v := by
  induction v using Any.nested with
  | nullptr =>
    intro missing text _ ht
    cases ht
    exact ⟨_, rfl, reads_null⟩
  | int x =>
    intro missing text _ ht
    cases ht
    exact ⟨_, rfl, reads_signed x.toInt⟩
  | unsigned x =>
    intro missing text _ ht
    cases ht
    exact ⟨_, rfl, reads_decimal x.toNat⟩
  | uint64 x =>
    intro missing text _ ht
    cases ht
    exact ⟨_, rfl, reads_decimal x.toNat⟩
  | double x =>
    intro missing text hall _
    exact hall.elim
  | char_ptr s =>
    intro missing text hall ht
    cases ht
    exact ⟨_, rfl, reads_quoted hall⟩
  | string s =>
    intro missing text hall ht
    cases ht
    exact ⟨_, rfl, reads_quoted hall⟩
  | vector vc ih =>
    intro missing text hall ht
    obtain ⟨t, hvc, ht⟩ := ok_of_bind ht
    cases ht
    cases vc with
    | nil =>
      cases hvc
      exact ⟨_, rfl, reads_emptyArray⟩
    | cons item vc =>
      obtain ⟨l, body, hl, rfl, hbody⟩ := elements_readBack ih hall hvc
      refine ⟨.array l, ?_, hbody.array⟩
      simp [tree, hl]
  | pairs vc ih =>
    intro missing text hall ht
    obtain ⟨t, hvc, ht⟩ := ok_of_bind ht
    cases ht
    cases vc with
    | nil =>
      cases hvc
      exact ⟨_, rfl, reads_emptyObject⟩
    | cons it vc =>
      obtain ⟨l, body, hl, rfl, hbody⟩ := members_readBack ih hall hvc
      refine ⟨.object l, ?_, hbody.object⟩
      simp [tree, hl]
  | other name =>
    intro missing text _ ht
    cases ht

theorem members_eq_entries (fmt : FixedFormat Double) (first : Bool) (l : List (Bytes × Bytes)) :
    members fmt first (l.map fun (key, item) => (key, .string item)) =
      .ok (entries first l) := by
  induction l generalizing first with
  | nil => rfl
  | cons it l ih =>
    simp only [List.map_cons, members, member, any_visitor, ih false, entries]
    rfl

/-- A list of pairs is printed exactly when every leaf has a printer; otherwise the call throws
`std::invalid_argument`. Without doubles, and with plain strings and keys, the text is an object
with the members of the list. A map is printed as its entries in key order. -/
theorem to_string_json_faithful (fmt : FixedFormat Double)
    (extras : List (Bytes × Any Double)) :
    ((∃ text, to_string_json fmt extras = .ok text) ↔
      All Registered (fun _ => True) (.pairs extras)) ∧
    (¬All Registered (fun _ => True) (.pairs extras) →
      ∃ what, to_string_json fmt extras = .error (.invalid_argument what)) ∧
    (∀ text, to_string_json fmt extras = .ok text → All Readable PlainKey (.pairs extras) →
      ∃ l, treeMembers extras = some l ∧ parse text = some (.object l)) ∧
    ∀ mp : OrderedMap Bytes Bytes,
      to_string_json fmt (mp.toList.map fun (key, item) => (key, .string item)) =
        .ok (to_string_json_map mp) := by
  have heq : to_string_json fmt extras = any_visitor fmt .invalid_argument (.pairs extras) := by
    rw [to_string_json, any_visitor]
  have hret : ReturnsIff (All Registered (fun _ => True) (.pairs extras))
      (to_string_json fmt extras) := by
    rw [heq]
    exact any_visitor_returns fmt _ _ (fun name => ⟨name, rfl⟩)
  refine ⟨⟨?_, ?_⟩, ?_, ?_, ?_⟩
  · rintro ⟨text, ht⟩
    rcases hret with ⟨hall, _⟩ | ⟨_, what, hw⟩
    · exact hall
    · rw [ht] at hw
      cases hw
  · intro hall
    rcases hret with ⟨_, ht⟩ | ⟨hn, _⟩
    · exact ht
    · exact absurd hall hn
  · intro hn
    rcases hret with ⟨hall, _⟩ | ⟨_, hw⟩
    · exact absurd hall hn
    · exact hw
  · intro text ht hall
    rw [heq] at ht
    obtain ⟨j, hj, hr⟩ := any_visitor_readBack fmt _ _ text hall ht
    obtain ⟨l, hl, rfl⟩ := Option.map_eq_some_iff.mp hj
    exact ⟨l, hl, reads_parse hr⟩
  · intro mp
    rw [to_string_json, members_eq_entries]
    rfl

/-- A list inside an object, a string with both escaped characters, and an empty object. -/
def nested : List (Bytes × Any Int) :=
  [(ascii "list", .vector [.int (-5), .string (ascii "a\x22\\b"), .nullptr]),
    (ascii "empty", .pairs [])]

theorem to_string_json_faithful_nested :
    ∃ text l, to_string_json wholeNumbers nested = .ok text ∧ treeMembers nested = some l ∧
      parse text = some (.object l) := by
  obtain ⟨hret, _, hread, _⟩ := to_string_json_faithful wholeNumbers nested
  have hlist : PlainKey (ascii "list") := by decide
  have hempty : PlainKey (ascii "empty") := by decide
  have hstring : PlainText (ascii "a\x22\\b") := by decide
  have hreg : All Registered (fun _ => True) (.pairs nested) := by
    simp [nested, All, AllMembers, AllMember, AllElements, Registered]
  have hplain : All Readable PlainKey (.pairs nested) := by
    simp [nested, All, AllMembers, AllMember, AllElements, Readable, hlist, hempty, hstring]
  obtain ⟨text, ht⟩ := hret.mpr hreg
  obtain ⟨l, hl, hp⟩ := hread text ht hplain
  exact ⟨text, l, ht, hl, hp⟩

end RabbitClient.StringUtils
