import Mathlib.Data.List.Induction
import Mathlib.Data.List.Nodup
import Offside.Proofs.Comparison.CodePoints
import Offside.Proofs.Methods.Locals

/-!
# Listing — the text of a scope

The text of a scope has a line for each of its bindings.  A table whose entries stand in no order can give
such a text too, if it sorts them by name:

- `Scope.LastUnder` : the value that was inserted last under a name
- `Scope.Table`     : the entries that insertions may leave, in any order
- `Scope.listing`   : the lines of such entries, which it sorts by the bytes of their names
- `Scope.Lists`     : rows that show each name once, with its last value

The main statement, `listing_of_table`, says that the text shows neither the order of the entries nor that of
the insertions: it is the text of every scope with the same bindings.  The lines of a text cannot be told
apart in general, as names and values may hold any characters, so that rows are lists and not parts of a text.
-/

namespace Offside.Scope

variable {s t : Scope} {inserted entries : List (String × Value)} {name : String} {value : Value}

/-! ## Insertions -/

/-- The value was inserted under the name, and the name was not inserted again. -/
def LastUnder (inserted : List (String × Value)) (name : String) (value : Value) : Prop :=
  ∃ before after, inserted = before ++ (name, value) :: after ∧ name ∉ after.map Prod.fst

theorem exists_lastUnder (h : name ∈ inserted.map Prod.fst) : ∃ value, LastUnder inserted name value := by
  induction inserted with
  | nil => cases h
  | cons b bs ih =>
      -- The first insertion counts only where no later one has its name.
      by_cases hlater : name ∈ bs.map Prod.fst
      · rcases ih hlater with ⟨value, before, after, rfl, hafter⟩
        exact ⟨value, b :: before, after, rfl, hafter⟩
      · have hb : name = b.1 := (List.mem_cons.mp h).resolve_right hlater
        subst hb
        exact ⟨b.2, [], bs, rfl, hlater⟩

theorem get?_insertAll_iff :
    (empty.insertAll inserted).get? name = some value ↔ LastUnder inserted name value := by
  have hlast : ∀ v, LastUnder inserted name v → (empty.insertAll inserted).get? name = some v := by
    rintro v ⟨before, after, rfl, hafter⟩
    exact get?_insertAll_last empty before (name, v) hafter
  refine ⟨fun h => ?_, hlast value⟩
  by_cases hname : name ∈ inserted.map Prod.fst
  · rcases exists_lastUnder hname with ⟨v, hv⟩
    rw [hlast v hv] at h
    cases h
    exact hv
  · rw [get?_insertAll_of_notMem hname, get?_empty] at h
    cases h

/-! ## Bindings as entries -/

/-- A binding is found by its name, as no other one has it. -/
theorem find?_of_mem {bs : List (String × Value)} (h : bs.Pairwise fun a b => a.1 < b.1)
    {b : String × Value} (hb : b ∈ bs) : bs.find? (·.1 == b.1) = some b := by
  induction h with
  | nil => cases hb
  | @cons c cs hhead _ ih =>
      rcases List.mem_cons.mp hb with rfl | hb
      · simp
      · have hne : c.1 ≠ b.1 := (hhead b hb).ne
        rw [List.find?_cons_of_neg (by simpa using hne)]
        exact ih hb

theorem mem_bindings_iff : (name, value) ∈ s.bindings ↔ s.get? name = some value := by
  constructor
  · intro h
    rw [get?, find?_of_mem s.sorted h]
    rfl
  · intro h
    rcases Option.map_eq_some_iff.mp h with ⟨b, hb, rfl⟩
    have hname : b.1 = name := by simpa using List.find?_some hb
    subst hname
    exact List.mem_of_find?_eq_some hb

theorem nodup_names (s : Scope) : (s.bindings.map Prod.fst).Nodup :=
  List.pairwise_map.mpr (s.sorted.imp ne_of_lt)

/-- An insertion replaces the binding of its name or adds one. -/
theorem insertSorted_perm (name : String) (value : Value) {bs : List (String × Value)}
    (h : bs.Pairwise fun a b => a.1 < b.1) :
    (insertSorted name value bs).Perm ((name, value) :: bs.filter (·.1 != name)) := by
  induction h with
  | nil => exact .refl _
  | @cons c cs hhead _ ih =>
      -- Names behind the place of the binding are greater, so that none of them is replaced.
      have hkept : ∀ {bs : List (String × Value)}, (∀ b ∈ bs, name < b.1) →
          bs.filter (·.1 != name) = bs := fun hlt =>
        List.filter_eq_self.mpr fun b hb => by simpa using (hlt b hb).ne'
      unfold insertSorted
      split
      next hlt =>
        have hall : ∀ b ∈ c :: cs, name < b.1 :=
          List.forall_mem_cons.mpr ⟨hlt, fun b hb => String.lt_trans hlt (hhead b hb)⟩
        rw [hkept hall]
      split
      next heq =>
        subst heq
        rw [List.filter_cons_of_neg (by simp), hkept hhead]
      next hne =>
        rw [List.filter_cons_of_pos (by simpa using Ne.symm hne)]
        exact (ih.cons c).trans (.swap _ _ _)

/-! ## Tables without an order -/

/-- The entries that a table may hold after some insertions. Each of them replaces the entry of its name or
adds one, and may leave the entries in any order. -/
inductive Table : List (String × Value) → List (String × Value) → Prop where
  | empty : Table [] []
  | insert {inserted entries entries' : List (String × Value)} (b : String × Value)
      (h : Table inserted entries)
      (hentries : entries'.Perm (b :: entries.filter (·.1 != b.1))) : Table (inserted ++ [b]) entries'

/-- A table holds the bindings of a scope with the same insertions, and every order of them is possible. -/
theorem table_iff_perm : Table inserted entries ↔ entries.Perm (empty.insertAll inserted).bindings := by
  constructor
  · intro h
    induction h with
    | empty => exact .nil
    | @insert inserted entries entries' b _ hentries ih =>
        have hstep := insertSorted_perm b.1 b.2 (empty.insertAll inserted).sorted
        rw [insertAll_append]
        exact hentries.trans (((ih.filter _).cons b).trans hstep.symm)
  · intro h
    induction inserted using List.reverseRecOn generalizing entries with
    | nil => exact h.eq_nil ▸ .empty
    | append_singleton inserted b ih =>
        -- The order before the last insertion does not matter, so it may be that of the scope.
        have hstep := insertSorted_perm b.1 b.2 (empty.insertAll inserted).sorted
        rw [insertAll_append] at h
        exact .insert b (ih (.refl _)) (h.trans hstep)

/-! ## Lines in order -/

def line (b : String × Value) : String :=
  b.1 ++ ": " ++ b.2.text ++ "\n"

/-- Names compare by their bytes. -/
def nameLE (a b : String × Value) : Bool :=
  decide (Text.bytes a.1 ≤ Text.bytes b.1)

/-- One line for each entry, sorted by name. -/
def listing (entries : List (String × Value)) : String :=
  String.join ((entries.mergeSort nameLE).map line)

theorem nameLE_trans (a b c : String × Value) (hab : nameLE a b = true) (hbc : nameLE b c = true) :
    nameLE a c = true :=
  decide_eq_true ((of_decide_eq_true hab).trans (of_decide_eq_true hbc))

theorem nameLE_total (a b : String × Value) : (nameLE a b || nameLE b a) = true := by
  rcases le_total (Text.bytes a.1) (Text.bytes b.1) with h | h
  · rw [nameLE, decide_eq_true h, Bool.true_or]
  · rw [nameLE, nameLE, decide_eq_true h, Bool.or_true]

/-- Different names have different bytes. -/
theorem nameLE_antisymm {a b : String × Value} (hab : nameLE a b = true) (hba : nameLE b a = true) :
    a.1 = b.1 := by
  rcases lt_trichotomy a.1 b.1 with h | h | h
  · exact absurd (Text.lt_bytes h) (of_decide_eq_true hba).not_gt
  · exact h
  · exact absurd (Text.lt_bytes h) (of_decide_eq_true hab).not_gt

/-- Sorting brings the bindings of a scope back into their order. -/
theorem mergeSort_eq_bindings (h : entries.Perm s.bindings) : entries.mergeSort nameLE = s.bindings := by
  have hperm : (entries.mergeSort nameLE).Perm s.bindings := (List.mergeSort_perm entries _).trans h
  have hsorted := List.pairwise_mergeSort nameLE_trans nameLE_total entries
  have hbindings : s.bindings.Pairwise fun a b => nameLE a b = true :=
    s.sorted.imp fun hlt => decide_eq_true (Text.lt_bytes hlt).le
  refine List.Perm.eq_of_pairwise (fun a b ha hb hab hba => ?_) hsorted hbindings hperm
  -- The order compares names only, but no two bindings share one.
  have hfind := find?_of_mem s.sorted (hperm.mem_iff.mp ha)
  rw [nameLE_antisymm hab hba, find?_of_mem s.sorted hb] at hfind
  exact (Option.some.inj hfind).symm

theorem listing_eq_text (h : entries.Perm s.bindings) : listing entries = s.text := by
  rw [listing, mergeSort_eq_bindings h]
  rfl

/-- The text of a scope depends on what its names are bound to. -/
theorem text_congr (h : ∀ name value, s.get? name = some value ↔ t.get? name = some value) :
    s.text = t.text := by
  have hmem : ∀ b, b ∈ s.bindings ↔ b ∈ t.bindings := fun b =>
    mem_bindings_iff.trans ((h b.1 b.2).trans mem_bindings_iff.symm)
  have hperm : s.bindings.Perm t.bindings :=
    (List.perm_ext_iff_of_nodup s.nodup_names.of_map t.nodup_names.of_map).mpr hmem
  rw [← listing_eq_text (.refl s.bindings), listing_eq_text hperm]

/-! ## What a listing shows -/

/-- The rows show what insertions leave. -/
structure Lists (inserted rows : List (String × Value)) : Prop where
  /-- The names ascend by code points. -/
  ascending : rows.Pairwise fun a b => Text.codePoints a.1 < Text.codePoints b.1
  /-- Each name that was inserted has one row. -/
  once : ∀ name ∈ inserted.map Prod.fst, (rows.map Prod.fst).count name = 1
  /-- A row shows the last value of its name, and there are no other rows. -/
  last : ∀ name value, (name, value) ∈ rows ↔ LastUnder inserted name value

theorem lists_bindings (inserted : List (String × Value)) :
    Lists inserted (empty.insertAll inserted).bindings where
  ascending := (empty.insertAll inserted).sorted.imp Text.lt_codePoints
  once name hname := by
    rcases exists_lastUnder hname with ⟨value, hvalue⟩
    have hmem := mem_bindings_iff.mpr (get?_insertAll_iff.mpr hvalue)
    exact List.count_eq_one_of_mem (nodup_names _) (List.mem_map_of_mem hmem)
  last _ _ := mem_bindings_iff.trans get?_insertAll_iff

/-- In whatever order its entries stand, a table lists every name that was inserted, once and with its last
value, and the names ascend by code points. The scope with the same insertions has this text, and so has every
scope that binds the names to these values, and every table that came to them by other insertions. -/
theorem listing_of_table (h : Table inserted entries) :
    (∀ order : List (String × Value), order.Perm entries → Table inserted order)
      ∧ (∃ rows, Lists inserted rows ∧ listing entries = String.join (rows.map line))
      ∧ (empty.insertAll inserted).text = listing entries
      ∧ (∀ s : Scope, (∀ name value, s.get? name = some value ↔ LastUnder inserted name value) →
        s.text = listing entries)
      ∧ (∀ inserted' entries', Table inserted' entries' →
        (∀ name value, LastUnder inserted' name value ↔ LastUnder inserted name value) →
          listing entries' = listing entries) := by
  have hperm := table_iff_perm.mp h
  have htext := listing_eq_text hperm
  refine ⟨fun order horder => table_iff_perm.mpr (horder.trans hperm),
    ⟨_, lists_bindings inserted, htext⟩, htext.symm, ?_, ?_⟩
  · intro s hs
    rw [htext]
    exact text_congr fun name value => (hs name value).trans get?_insertAll_iff.symm
  · intro inserted' entries' h' hsame
    rw [htext, listing_eq_text (table_iff_perm.mp h')]
    exact text_congr fun name value =>
      get?_insertAll_iff.trans ((hsame name value).trans get?_insertAll_iff.symm)

/-- Insertions that overwrite `é`, others that overwrite `Z`, and a scope without overwriting, all to the same
bindings. -/
theorem listing_of_table_of_overwrites :
    Table [("é", .str "two"), ("Z", .int 1), ("é", .none)] [("é", .none), ("Z", .int 1)]
      ∧ Table [("Z", .bool true), ("é", .none), ("Z", .int 1)] [("Z", .int 1), ("é", .none)]
      ∧ listing [("é", .none), ("Z", .int 1)] = "Z: 1\né: None\n"
      ∧ listing [("Z", .int 1), ("é", .none)] = listing [("é", .none), ("Z", .int 1)]
      ∧ ((empty.insert "Z" (.int 1)).insert "é" .none).text
        = listing [("é", .none), ("Z", .int 1)] := by
  let s : Scope := (empty.insert "Z" (.int 1)).insert "é" .none
  have hfirst : empty.insertAll [("é", .str "two"), ("Z", .int 1), ("é", .none)] = s := by rfl
  have hsecond : empty.insertAll [("Z", .bool true), ("é", .none), ("Z", .int 1)] = s := by rfl
  have hbindings : s.bindings = [("Z", .int 1), ("é", .none)] := by rfl
  have htext : s.text = "Z: 1\né: None\n" := by rfl
  have hswapped : Table [("é", .str "two"), ("Z", .int 1), ("é", .none)]
      [("é", .none), ("Z", .int 1)] := by
    rw [table_iff_perm, hfirst, hbindings]
    exact .swap _ _ _
  have hsorted : Table [("Z", .bool true), ("é", .none), ("Z", .int 1)]
      [("Z", .int 1), ("é", .none)] := by
    rw [table_iff_perm, hsecond, hbindings]
  rcases listing_of_table hswapped with ⟨-, -, hsame, hscope, htable⟩
  refine ⟨hswapped, hsorted, ?_, htable _ _ hsorted ?_, hscope s ?_⟩
  · rw [← hsame, hfirst, htext]
  · intro name value
    rw [← get?_insertAll_iff, ← get?_insertAll_iff, hfirst, hsecond]
  · intro name value
    rw [← get?_insertAll_iff, hfirst]

end Offside.Scope
