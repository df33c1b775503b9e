import RabbitClient.StringUtils.JsonFaithful

/-! Without doubles and with plain keys, what is printed is read back exactly if the strings are
plain: a control character in any of them spoils the whole text. -/
namespace RabbitClient.StringUtils
open Bytes JsonReader

variable {Double : Type} {fmt : FixedFormat Double}

/-- No double; strings of any kind. -/
def Exact : Any Double → Prop
  | .double _ => False
  | _ => True

theorem refusesString_escape {s : Bytes} (h : ¬PlainText s) :
    RefusesString (s.flatMap escape) := by
  induction s with
  | nil => exact (h (by simp [PlainText])).elim
  | cons c s ih =>
    by_cases he : c = quote ∨ c = backslash
    · have hesc : escape c = [backslash, c] := if_pos he
      have hc : 0x20 ≤ c := by
        rcases he with rfl | rfl <;> decide
      have hs : ¬PlainText s := fun hs => h (List.forall_mem_cons.mpr ⟨hc, hs⟩)
      simpa [hesc] using (ih hs).escaped he
    · have hesc : escape c = [c] := if_neg he
      obtain ⟨hq, hb⟩ := not_or.mp he
      by_cases hc : 0x20 ≤ c
      · have hs : ¬PlainText s := fun hs => h (List.forall_mem_cons.mpr ⟨hc, hs⟩)
        simpa [hesc] using (ih hs).plain hq hb
      · simpa [hesc] using refusesString_control (UInt8.not_le.mp hc) (s.flatMap escape)

theorem refused_quoted {s : Bytes} (h : ¬PlainText s) : Refused (quoted s) :=
  refused_string (refusesString_escape h) _

/-- What is printed of the value is refused if one of its strings is not plain. -/
def RefusesBack (fmt : FixedFormat Double) (v : Any Double) : Prop :=
  ∀ missing text, All Exact PlainKey v → ¬All Readable PlainKey v →
    any_visitor fmt missing v = .ok text → Refused text

theorem elements_refuseBack {item : Any Double} {vc : List (Any Double)}
    (h : ∀ v ∈ item :: vc, RefusesBack fmt v) {first : Bool} {text : Bytes}
    (hall : AllElements Exact PlainKey (item :: vc))
    (hnot : ¬AllElements Readable PlainKey (item :: vc))
    (ht : elements fmt first (item :: vc) = .ok text) :
    ∃ body, text = separator first ++ body ∧ RefusedElements body := by
  induction vc generalizing item first text with
  | nil =>
    obtain ⟨t, hitem, ht⟩ := ok_of_bind ht
    have hn : ¬All Readable PlainKey item := fun hr => hnot ⟨hr, trivial⟩
    have href := h item (by simp) _ t hall.1 hn hitem
    cases ht
    exact ⟨t, by simp, by simpa using href.elements []⟩
  | cons next vc ih =>
    obtain ⟨t, hitem, ht⟩ := ok_of_bind ht
    obtain ⟨rest, hrest, ht⟩ := ok_of_bind ht
    cases ht
    by_cases hr : All Readable PlainKey item
    · obtain ⟨j, -, hreads⟩ := any_visitor_readBack fmt item _ t hr hitem
      have hn : ¬AllElements Readable PlainKey (next :: vc) := fun hvc => hnot ⟨hr, hvc⟩
      obtain ⟨body, rfl, hbody⟩ := ih (List.forall_mem_cons.mp h).2 hall.2 hn hrest
      refine ⟨t ++ comma :: 0x20 :: body, ?_, hbody.cons hreads⟩
      simp [separator, ascii, comma, ofChar]
    · have href := h item (by simp) _ t hall.1 hr hitem
      exact ⟨t ++ rest, by simp, href.elements rest⟩

theorem members_refuseBack {it : Bytes × Any Double} {vc : List (Bytes × Any Double)}
    (h : ∀ m ∈ it :: vc, RefusesBack fmt m.2) {first : Bool} {text : Bytes}
    (hall : AllMembers Exact PlainKey (it :: vc))
    (hnot : ¬AllMembers Readable PlainKey (it :: vc))
    (ht : members fmt first (it :: vc) = .ok text) :
    ∃ body, text = separator first ++ body ∧ RefusedMembers body := by
  induction vc generalizing it first text with
  | nil =>
    obtain ⟨key, item⟩ := it
    obtain ⟨t, hmember, ht⟩ := ok_of_bind ht
    obtain ⟨u, hitem, hmember⟩ := ok_of_bind hmember
    have hn : ¬All Readable PlainKey item := fun hr => hnot ⟨⟨hall.1.1, hr⟩, trivial⟩
    have href := h (key, item) (by simp) _ u hall.1.2 hn hitem
    cases hmember
    cases ht
    refine ⟨memberText key u, ?_, by simpa using href.members (readsString_key hall.1.1) []⟩
    simp [memberText, ascii, quote, colon, ofChar]
  | cons next vc ih =>
    obtain ⟨key, item⟩ := it
    obtain ⟨t, hmember, ht⟩ := ok_of_bind ht
    obtain ⟨u, hitem, hmember⟩ := ok_of_bind hmember
    obtain ⟨rest, hrest, ht⟩ := ok_of_bind ht
    cases hmember
    cases ht
    have hkey := readsString_key hall.1.1
    by_cases hr : All Readable PlainKey item
    · obtain ⟨j, -, hreads⟩ := any_visitor_readBack fmt item _ u hr hitem
      have hn : ¬AllMembers Readable PlainKey (next :: vc) :=
        fun hvc => hnot ⟨⟨hall.1.1, hr⟩, hvc⟩
      obtain ⟨body, rfl, hbody⟩ := ih (List.forall_mem_cons.mp h).2 hall.2 hn hrest
      refine ⟨memberText key u ++ comma :: 0x20 :: body, ?_, hbody.cons hkey hreads⟩
      simp [memberText, separator, ascii, quote, colon, comma, ofChar]
    · have href := h (key, item) (by simp) _ u hall.1.2 hr hitem
      refine ⟨memberText key u ++ rest, ?_, href.members hkey rest⟩
      simp [memberText, ascii, quote, colon, ofChar]

theorem any_visitor_refuseBack (fmt : FixedFormat Double) (v : Any Double) :
    RefusesBack fmt v := by
  induction v using Any.nested with
  | nullptr =>
    intro missing text _ hnot _
    exact (hnot trivial).elim
  | int x =>
    intro missing text _ hnot _
    exact (hnot trivial).elim
  | unsigned x =>
    intro missing text _ hnot _
    exact (hnot trivial).elim
  | uint64 x =>
    intro missing text _ hnot _
    exact (hnot trivial).elim
  | double x =>
    intro missing text hall _ _
    exact hall.elim
  | char_ptr s =>
    intro missing text _ hnot ht
    cases ht
    exact refused_quoted hnot
  | string s =>
    intro missing text _ hnot ht
    cases ht
    exact refused_quoted hnot
  | vector vc ih =>
    intro missing text hall hnot ht
    obtain ⟨t, hvc, ht⟩ := ok_of_bind ht
    cases ht
    cases vc with
    | nil => exact (hnot trivial).elim
    | cons item vc =>
      obtain ⟨body, rfl, hbody⟩ := elements_refuseBack ih hall hnot hvc
      exact hbody.array
  | pairs vc ih =>
    intro missing text hall hnot ht
    obtain ⟨t, hvc, ht⟩ := ok_of_bind ht
    cases ht
    cases vc with
    | nil => exact (hnot trivial).elim
    | cons it vc =>
      obtain ⟨body, rfl, hbody⟩ := members_refuseBack ih hall hnot hvc
      exact hbody.object
  | other name =>
    intro missing text _ hnot _
    exact (hnot trivial).elim

/-- The text of an object without doubles and with plain keys is a JSON text exactly if all its
strings are plain, and then it is that of the tree. -/
theorem parse_to_string_json {extras : List (Bytes × Any Double)} {text : Bytes}
    (hall : All Exact PlainKey (.pairs extras)) (ht : to_string_json fmt extras = .ok text) :
    (All Readable PlainKey (.pairs extras) →
      ∃ l, treeMembers extras = some l ∧ parse text = some (.object l)) ∧
    (¬All Readable PlainKey (.pairs extras) → parse text = none) := by
  have heq : to_string_json fmt extras = any_visitor fmt .invalid_argument (.pairs extras) := by
    rw [to_string_json, any_visitor]
  rw [heq] at ht
  constructor
  · intro hr
    obtain ⟨j, hj, hreads⟩ := any_visitor_readBack fmt _ _ text hr ht
    obtain ⟨l, hl, rfl⟩ := Option.map_eq_some_iff.mp hj
    exact ⟨l, hl, reads_parse hreads⟩
  · intro hn
    exact refused_parse (any_visitor_refuseBack fmt _ _ text hall hn ht)

end RabbitClient.StringUtils
