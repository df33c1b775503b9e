import RabbitClient.Redis.ClientList

/-! Decoding the reply to `CLIENT LIST`: a field, a line, the whole reply. -/
namespace RabbitClient.RedisClientStorage

open Bytes StringUtils

variable {cl r : ClientSt} {k : Key} {b : Bytes} {fields : List Field}

/-- What `list` keeps of a text: the part before its first `=`. -/
def cut (b : Bytes) : Bytes := b.takeWhile (· ≠ 61)

def truncate (cl : ClientSt) : ClientSt :=
  { cl with
    addr := cut cl.addr
    fd := cut cl.fd
    name := cut cl.name
    flags := cut cl.flags
    db := cut cl.db
    events := cut cl.events
    cmd := cut cl.cmd
    user := cut cl.user }

theorem mem_all (k : Key) : k ∈ Key.all := by
  cases k <;> decide

theorem find_label (k : Key) : (Key.all.find? fun k' => k'.label = k.label) = some k := by
  cases k <;> rfl

theorem clean_label (k : Key) : Clean k.label ∧ 61 ∉ k.label := by
  cases k <;> decide

theorem assign_known (cl : ClientSt) (k : Key) (h : 0 ∉ b) :
    assign cl (k.label ++ 61 :: b) = some (k.store cl (cut b)) := by
  obtain ⟨⟨-, -, hlabel⟩, heq⟩ := clean_label k
  obtain ⟨rest, hrest⟩ := splitOn_eq_cons 61 b
  have hnul : 0 ∉ k.label ++ 61 :: b := by simp [hlabel, h]
  have ht : split (k.label ++ 61 :: b) 61 = k.label :: cut b :: rest := by
    rw [split_eq hnul, List.splitOn_append_cons_self_of_not_mem heq, hrest]
    rfl
  simp [assign, ht, find_label]

theorem assign_unknown (cl : ClientSt) (h : 0 ∉ b) (hb : ∀ k ∈ Key.all, cut b ≠ k.label) :
    assign cl b = some cl := by
  obtain ⟨rest, hrest⟩ := splitOn_eq_cons 61 b
  have ht : split b 61 = cut b :: rest := by
    rw [split_eq h, hrest]
    rfl
  have hfind : (Key.all.find? fun k => k.label = cut b) = none := by
    rw [List.find?_eq_none]
    intro k hk
    simpa using (hb k hk).symm
  simp [assign, ht, hfind]

theorem cut_of_notMem (h : 61 ∉ b) : cut b = b :=
  List.takeWhile_eq_self_iff.mpr (ne_of_notMem h)

theorem cut_eq_self_iff : cut b = b ↔ 61 ∉ b := by
  constructor
  · intro h h61
    rw [← h] at h61
    simpa using List.mem_takeWhile_imp h61
  · exact cut_of_notMem

theorem cut_decimal (n : Nat) : cut (decimal n) = decimal n :=
  cut_of_notMem (notMem_decimal (.inr (by decide)) n)

theorem atoui64_cut (n : UInt64) : atoui64 (cut (decimal n.toNat)) = n := by
  rw [cut_decimal, atoui64_decimal]

theorem atol_cut {n : Int32} (h : 0 ≤ n.toInt) :
    Int32.ofInt (atol (cut (decimal n.toInt.toNat))) = n := by
  have hlt : n.toInt < 2 ^ 31 := n.toInt_lt
  rw [cut_decimal, atol_decimal (by omega), Int.toNat_of_nonneg h, Int32.ofInt_toInt]

theorem value_store (cl : ClientSt) (h : (k.value r).Printable) :
    k.value (k.store cl (cut (k.value r).print)) = k.value (truncate r) := by
  -- a text, a number of 64 bits or an `int`
  cases k <;> first
    | rfl
    | exact congrArg Value.number (atoui64_cut _)
    | exact congrArg Value.int (atol_cut h)

/-- Assigning a field leaves the others as they are. -/
theorem value_store_of_ne {k' : Key} (cl : ClientSt) (b : Bytes) (h : k' ≠ k) :
    k'.value (k.store cl b) = k'.value cl := by
  cases k <;> cases k' <;> first | rfl | contradiction

theorem ext_value {cl' : ClientSt} (h : ∀ k : Key, k.value cl = k.value cl') : cl = cl' := by
  have hall : Key.all.map (fun k => k.value cl) = Key.all.map (fun k => k.value cl') :=
    List.map_congr_left fun k _ => h k
  simp only [Key.all, List.map_cons, List.map_nil, Key.value, List.cons.injEq, Value.text.injEq,
    Value.number.injEq, Value.int.injEq, and_true] at hall
  cases cl
  cases cl'
  simpa using hall

theorem zero_notMem_print (h : (k.value r).Printable) : 0 ∉ (k.value r).print := by
  cases hv : k.value r with
  | text b =>
    rw [hv] at h
    exact h.2.2
  | number n => exact zero_notMem_decimal _
  | int n => exact zero_notMem_decimal _

/-- The fields of a line are written over what the record holds at first. -/
theorem foldlM_assign (fields : List Field) (hprint : ∀ k : Key, (k.value r).Printable)
    (hunknown : ∀ b, .unknown b ∈ fields → 0 ∉ b ∧ ∀ k ∈ Key.all, cut b ≠ k.label)
    (cl : ClientSt) :
    ∃ cl', (fields.map (Field.print r)).foldlM assign cl = some cl' ∧
      ∀ k : Key, k.value cl' =
        if .known k ∈ fields then k.value (truncate r) else k.value cl := by
  induction fields generalizing cl with
  | nil => exact ⟨cl, rfl, by simp⟩
  | cons f fields ih =>
    have hlater : ∀ b, .unknown b ∈ fields → 0 ∉ b ∧ ∀ k ∈ Key.all, cut b ≠ k.label :=
      fun b hb => hunknown b (List.mem_cons_of_mem _ hb)
    cases f with
    | known k =>
      have hassign := assign_known cl k (zero_notMem_print (hprint k))
      obtain ⟨cl', hfold, hvalue⟩ := ih hlater (k.store cl (cut (k.value r).print))
      refine ⟨cl', ?_, ?_⟩
      · simp only [List.map_cons, List.foldlM_cons, Field.print, hassign, Option.bind_eq_bind,
          Option.bind_some, hfold]
      · intro k'
        rw [hvalue k']
        by_cases hk : k' = k
        · subst k'
          simp [value_store cl (hprint k)]
        · simp [hk, value_store_of_ne cl _ hk]
    | unknown b =>
      obtain ⟨hnul, hb⟩ := hunknown b (List.mem_cons_self ..)
      obtain ⟨cl', hfold, hvalue⟩ := ih hlater cl
      refine ⟨cl', ?_, ?_⟩
      · simp only [List.map_cons, List.foldlM_cons, Field.print, assign_unknown cl hnul hb,
          Option.bind_eq_bind, Option.bind_some, hfold]
      · intro k'
        simp [hvalue k']

theorem clean_append {b c : Bytes} (hb : Clean b) (hc : Clean c) : Clean (b ++ c) := by
  simp [Clean, hb.1, hb.2.1, hb.2.2, hc.1, hc.2.1, hc.2.2]

theorem clean_print {v : Value} (h : v.Printable) : Clean v.print := by
  cases v with
  | text b => exact h
  | number n =>
    exact ⟨notMem_decimal (.inl (by decide)) _, notMem_decimal (.inl (by decide)) _,
      zero_notMem_decimal _⟩
  | int n =>
    exact ⟨notMem_decimal (.inl (by decide)) _, notMem_decimal (.inl (by decide)) _,
      zero_notMem_decimal _⟩

namespace Reported
variable (c : Reported)

theorem value_printable (k : Key) : (k.value c.record).Printable := c.printable k (mem_all k)

theorem known_mem (k : Key) : .known k ∈ c.fields := by
  have hk : k ∈ c.fields.filterMap Field.key := c.complete.mem_iff.mpr (mem_all k)
  obtain ⟨f, hf, hkey⟩ := List.mem_filterMap.mp hk
  cases f with
  | known k' =>
    obtain rfl : k' = k := by simpa [Field.key] using hkey
    exact hf
  | unknown b => simp [Field.key] at hkey

theorem clean_field {f : Field} (h : f ∈ c.fields) : Clean (f.print c.record) := by
  cases f with
  | known k =>
    have hrest : Clean (61 :: (k.value c.record).print) :=
      clean_append (b := [61]) (by decide) (clean_print (c.value_printable k))
    exact clean_append (clean_label k).1 hrest
  | unknown b => exact (c.unknown b h).1

theorem fields_ne_nil : c.fields ≠ [] := List.ne_nil_of_mem (c.known_mem .id)

theorem zero_notMem_line : 0 ∉ c.line :=
  notMem_intercalate (by decide) (by simpa using fun f hf => (c.clean_field hf).2.2)

theorem newline_notMem_line : 10 ∉ c.line :=
  notMem_intercalate (by decide) (by simpa using fun f hf => (c.clean_field hf).2.1)

theorem split_line : split c.line 32 = c.fields.map (Field.print c.record) := by
  rw [split_eq c.zero_notMem_line, line, List.splitOn_intercalate]
  · intro b hb
    obtain ⟨f, hf, rfl⟩ := List.mem_map.mp hb
    exact (c.clean_field hf).1
  · simpa using c.fields_ne_nil

/-- A line is decoded to its record with the texts cut, unless that leaves no address. -/
theorem decode_line : decode c.line =
    if cut c.record.addr = [] then none else some (truncate c.record) := by
  obtain ⟨cl, hfold, hvalue⟩ := foldlM_assign c.fields c.value_printable
    (fun b hb => ⟨(c.unknown b hb).1.2.2, (c.unknown b hb).2⟩) {}
  have hcl : cl = truncate c.record := by
    apply ext_value
    intro k
    rw [hvalue k, if_pos (c.known_mem k)]
  rw [decode, c.split_line, hfold, hcl]
  simp [truncate, c.id_ne_zero]

theorem line_ne_nil : c.line ≠ [] := by
  intro h
  have hsplit := c.split_line
  rw [h, split_eq (by simp), List.splitOn_nil] at hsplit
  have hid : Field.print c.record (.known .id) ∈ c.fields.map (Field.print c.record) :=
    List.mem_map_of_mem (c.known_mem .id)
  rw [← hsplit, List.mem_singleton] at hid
  simp [Field.print] at hid

end Reported

variable {clients : List Reported} {closed : Bool} {name : Bytes}

theorem zero_notMem_reply (closed : Bool) (clients : List Reported) :
    0 ∉ reply closed clients := by
  have hlines : 0 ∉ [10].intercalate (clients.map Reported.line) :=
    notMem_intercalate (by decide) (by simpa using fun c _ => c.zero_notMem_line)
  cases closed <;> simp [reply, hlines]

theorem splitOn_lines (clients : List Reported) :
    ∃ empties : List Bytes, (∀ b ∈ empties, b = []) ∧
      ([10].intercalate (clients.map Reported.line)).splitOn 10 =
        clients.map Reported.line ++ empties := by
  cases clients with
  | nil => exact ⟨[[]], by simp, by simp⟩
  | cons c clients =>
    refine ⟨[], by simp, ?_⟩
    rw [List.splitOn_intercalate, List.append_nil]
    · intro b hb
      obtain ⟨c', -, rfl⟩ := List.mem_map.mp hb
      exact c'.newline_notMem_line
    · simp

/-- The reply is cut into its lines, with empty lines at the end. -/
theorem split_reply (closed : Bool) (clients : List Reported) :
    ∃ empties : List Bytes, (∀ b ∈ empties, b = []) ∧
      split (reply closed clients) 10 = clients.map Reported.line ++ empties := by
  obtain ⟨empties, hempties, hsplit⟩ := splitOn_lines clients
  rw [split_eq (zero_notMem_reply closed clients)]
  cases closed with
  | false => exact ⟨empties, hempties, by simpa [reply] using hsplit⟩
  | true =>
    refine ⟨empties ++ [[]], by simpa [or_imp, forall_and] using hempties, ?_⟩
    rw [reply, if_pos rfl, List.splitOn_append_cons_self, hsplit, List.splitOn_nil,
      List.append_assoc]

theorem foldlM_empties {empties : List Bytes} (h : ∀ b ∈ empties, b = []) (name : Bytes)
    (results : List ClientSt) : empties.foldlM (collect name) results = some results := by
  induction empties with
  | nil => rfl
  | cons b empties ih =>
    obtain ⟨rfl, hrest⟩ := List.forall_mem_cons.mp h
    rw [List.foldlM_cons, collect]
    exact ih hrest

theorem collect_line (c : Reported) (name : Bytes) (results : List ClientSt) :
    collect name results c.line =
      if cut c.record.addr = [] then none
      else some (results ++ [truncate c.record].filter (contains ·.name name)) := by
  have hne : c.line.isEmpty = false := by simpa using c.line_ne_nil
  rw [collect, hne, c.decode_line]
  by_cases ha : cut c.record.addr = []
  · simp [ha]
  · by_cases hn : contains (truncate c.record).name name <;> simp [ha, hn]

theorem foldlM_lines (clients : List Reported) (name : Bytes) (results : List ClientSt) :
    (clients.map Reported.line).foldlM (collect name) results =
      if ∀ c ∈ clients, cut c.record.addr ≠ [] then
        some (results ++ (clients.map (truncate ·.record)).filter (contains ·.name name))
      else none := by
  induction clients generalizing results with
  | nil => simp
  | cons c clients ih =>
    rw [List.map_cons, List.foldlM_cons, collect_line]
    by_cases ha : cut c.record.addr = []
    · simp [ha]
    · simp only [ha, if_false, Option.bind_eq_bind, Option.bind_some, ih, List.forall_mem_cons,
        ne_eq, not_false_eq_true, true_and, List.append_assoc, ← List.filter_append,
        List.map_cons, List.singleton_append]

/-- `list` returns the clients whose name contains the one looked for, with their texts cut; if
that leaves one of the clients without address, it fails. -/
theorem list_reply (closed : Bool) (clients : List Reported) (name : Bytes) :
    list (some (reply closed clients)) name =
      if ∀ c ∈ clients, cut c.record.addr ≠ [] then
        some ((clients.map (truncate ·.record)).filter (contains ·.name name))
      else none := by
  obtain ⟨empties, hempties, hsplit⟩ := split_reply closed clients
  rw [list, hsplit, List.foldlM_append, foldlM_lines]
  by_cases ha : ∀ c ∈ clients, cut c.record.addr ≠ []
  · rw [if_pos ha, if_pos ha]
    exact foldlM_empties hempties name _
  · rw [if_neg ha, if_neg ha]
    rfl

theorem contains_nil (s : Bytes) : contains s [] := by
  cases s <;> simp [contains]

theorem list_all (closed : Bool) (clients : List Reported) :
    list (some (reply closed clients)) [] =
      if ∀ c ∈ clients, cut c.record.addr ≠ [] then some (clients.map (truncate ·.record))
      else none := by
  have hfilter : ∀ cls : List ClientSt, cls.filter (contains ·.name []) = cls := by
    intro cls
    simp [contains_nil]
  rw [list_reply, hfilter]

/-- Cutting changes nothing exactly if no value has an `=` in it. -/
theorem truncate_eq_iff (r : ClientSt) :
    truncate r = r ↔ ∀ k : Key, 61 ∉ (k.value r).print := by
  constructor
  · intro h k
    have hv : k.value (truncate r) = k.value r := by rw [h]
    cases k <;> simp only [Key.value, truncate, Value.text.injEq, cut_eq_self_iff] at hv ⊢ <;>
      first
        | exact hv
        | exact notMem_decimal (.inr (by decide)) _
  · intro h
    apply ext_value
    intro k
    have hk := h k
    cases k <;> first
      | rfl
      | exact congrArg Value.text (cut_of_notMem hk)

/-- Without a filter `list` returns exactly the clients the server reports if none of their values
has an `=` in it, and otherwise it does not. -/
theorem list_all_iff (closed : Bool) (clients : List Reported) :
    list (some (reply closed clients)) [] = some (clients.map Reported.record) ↔
      ∀ c ∈ clients, ∀ k : Key, 61 ∉ (k.value c.record).print := by
  have hmap : clients.map (truncate ·.record) = clients.map Reported.record ↔
      ∀ c ∈ clients, truncate c.record = c.record := by
    rw [List.map_inj_left]
  rw [list_all]
  constructor
  · intro h c hc
    split at h
    · rw [Option.some_inj, hmap] at h
      exact (truncate_eq_iff c.record).mp (h c hc)
    · contradiction
  · intro h
    have htrunc : ∀ c ∈ clients, truncate c.record = c.record :=
      fun c hc => (truncate_eq_iff c.record).mpr (h c hc)
    have haddr : ∀ c ∈ clients, cut c.record.addr ≠ [] := by
      intro c hc
      have hcut : cut c.record.addr = c.record.addr := congrArg ClientSt.addr (htrunc c hc)
      rw [hcut]
      exact c.addr_ne_nil
    rw [if_pos haddr, hmap.mpr htrunc]

/-- A record that a server can report. -/
def ClientSt.Proper (record : ClientSt) : Prop :=
  record.id ≠ 0 ∧ record.addr ≠ [] ∧ ∀ k ∈ Key.all, (k.value record).Printable

/-- A client reported with the known fields only, in the order of the structure. -/
def reported (record : ClientSt) (h : record.Proper) : Reported where
  record := record
  fields := Key.all.map .known
  id_ne_zero := h.1
  addr_ne_nil := h.2.1
  printable := h.2.2
  complete := by
    rw [List.filterMap_map]
    exact .of_eq (List.filterMap_some)
  unknown := by simp

/-- A client whose user name is `a=b`. -/
def equalsUser : ClientSt where
  id := 7
  addr := ascii "127.0.0.1:6379"
  user := ascii "a=b"

theorem equalsUser_proper : equalsUser.Proper := ⟨by decide, by decide, by decide⟩

/-- The user name comes back as `a`. -/
theorem list_loses_user :
    list (some (reply true [reported equalsUser equalsUser_proper])) [] ≠
      some [equalsUser] := by
  have hne : truncate equalsUser ≠ equalsUser := by decide
  rw [list_all]
  split
  · intro h
    exact hne (List.cons.inj (Option.some.inj h)).1
  · simp

end RabbitClient.RedisClientStorage
