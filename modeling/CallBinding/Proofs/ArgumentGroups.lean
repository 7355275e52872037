import CallBinding.Proofs.HashSpelling

/-!
Arguments and the entries of an argument list. Reading the list sorts its entries into those that
are arguments by themselves and those of the one hash, and passes over blocks and comments. Nothing
else is lost and nothing is doubled: the nodes of the arguments are the entries that are not passed
over, each as often as it stands there, though keywords may have moved to the end
(`Argument.Groups`). What is passed over leaves no trace in any argument
(`Argument.groupArguments_congr`).
-/

set_option autoImplicit false
set_option relaxedAutoImplicit false

namespace CallBinding

namespace Node

/-- What stands in the argument list of a call, blocks and comments included. -/
def argumentEntries (call : Node) : List Node :=
  ((call.child? "arguments").map namedChildren).getD []

theorem arguments_eq_groupArguments (call : Node) :
    call.arguments = groupArguments call.argumentEntries := by
  rw [arguments, argumentEntries]
  cases call.child? "arguments" <;> rfl

/-- The entries that are arguments by themselves and those of the hash are together all that are not
passed over. -/
theorem perm_filter_passedOver (entries : List Node) :
    (entries.filter (fun e ↦ e.IsPositional) ++ entries.filter fun e ↦ e.IsKeyword).Perm
      (entries.filter fun e ↦ e.kind ∉ passedOverKinds) := by
  have hkeyword : (entries.filter fun e ↦ e.IsKeyword) =
      (entries.filter fun e ↦ e.kind ∉ passedOverKinds).filter fun e ↦ !decide e.IsPositional := by
    rw [filter_isKeyword]
    refine List.filter_congr fun e he ↦ ?_
    have hpassed : e.kind ∉ passedOverKinds := by simpa using (List.mem_filter.mp he).2
    have hiff : e.IsKeyword ↔ ¬ e.IsPositional := by
      rw [IsPositional, not_and_not_right]
      exact ⟨fun hkeyword _ ↦ hkeyword, fun h ↦ h hpassed⟩
    simp [hiff]
  rw [filter_isPositional, hkeyword]
  exact List.filter_append_perm _ _

end Node

namespace Argument

/-- The argument that is one node. -/
def single (n : Node) : Argument :=
  ⟨n, [], false⟩

/-- Arguments are those that the entries of an argument list make: one for each entry that stands
for itself, in order, and behind them one hash of all keyword entries, in order, when there are
any. -/
structure Groups (entries : List Node) (args : List Argument) : Prop where
  split : ∃ hash : Option Argument,
    args = (entries.filter fun e ↦ e.IsPositional).map single ++ hash.toList ∧
      (hash.isSome = true ↔ ∃ e ∈ entries, e.IsKeyword) ∧
      ∀ a ∈ hash, a.implicitHash = true ∧ a.nodes = entries.filter fun e ↦ e.IsKeyword
  nodes_perm : (args.flatMap nodes).Perm (entries.filter fun e ↦ e.kind ∉ passedOverKinds)

variable {a : Argument} {entries entries' : List Node} {args : List Argument}

theorem nodes_of_mem_ofNodes? {implicitHash : Bool} {nodes : List Node}
    (h : a ∈ ofNodes? implicitHash nodes) : a.implicitHash = implicitHash ∧ a.nodes = nodes := by
  cases nodes with
  | nil => exact absurd h nofun
  | cons first more =>
    injection h with h
    rw [← h]
    exact ⟨rfl, rfl⟩

theorem isSome_ofNodes?_iff {implicitHash : Bool} {nodes : List Node} :
    (ofNodes? implicitHash nodes).isSome = true ↔ nodes ≠ [] := by
  cases nodes with
  | nil => exact ⟨nofun, fun h ↦ absurd rfl h⟩
  | cons first more => exact ⟨fun _ ↦ nofun, fun _ ↦ rfl⟩

theorem flatMap_nodes_toList_ofNodes? (implicitHash : Bool) (nodes : List Node) :
    (ofNodes? implicitHash nodes).toList.flatMap Argument.nodes = nodes := by
  cases nodes with
  | nil => rfl
  | cons first more => exact List.append_nil _

theorem groupArguments_eq (entries : List Node) : groupArguments entries =
    (entries.filter fun e ↦ e.IsPositional).map single ++
      (ofNodes? true (entries.filter fun e ↦ e.IsKeyword)).toList := by
  rw [groupArguments, Grouping.foldl_add]
  rfl

theorem groups_groupArguments (entries : List Node) : Groups entries (groupArguments entries) where
  split := by
    refine ⟨_, groupArguments_eq entries, ?_, fun a ha ↦ nodes_of_mem_ofNodes? ha⟩
    rw [isSome_ofNodes?_iff, ne_eq, List.filter_eq_nil_iff]
    simp
  nodes_perm := by
    have hsingle : ((entries.filter fun e ↦ e.IsPositional).map single).flatMap nodes =
        entries.filter fun e ↦ e.IsPositional := by
      rw [List.flatMap_map]
      exact List.flatMap_singleton' _
    rw [groupArguments_eq, List.flatMap_append, hsingle, flatMap_nodes_toList_ofNodes?]
    exact Node.perm_filter_passedOver entries

/-- Entries that differ in what is passed over make the same arguments. -/
theorem groupArguments_congr
    (h : (entries.filter fun e ↦ e.kind ∉ passedOverKinds) =
      entries'.filter fun e ↦ e.kind ∉ passedOverKinds) :
    groupArguments entries = groupArguments entries' := by
  rw [groupArguments_eq, groupArguments_eq, Node.filter_isPositional entries,
    Node.filter_isKeyword entries, h, ← Node.filter_isPositional, ← Node.filter_isKeyword]

/-- The text of an argument runs from the start of its first node to the end of its last. -/
theorem source_facts (src : Source) (a : Argument) :
    ∃ first last, a.nodes.head? = some first ∧ a.nodes.getLast? = some last ∧
      (a.facts src).source = src.span first.start last.stop := by
  refine ⟨a.first, a.more.getLast?.getD a.first, rfl, ?_, rfl⟩
  rw [nodes, List.getLast?_cons]

end Argument

/-- The arguments of a call group the entries of its argument list: one argument for each entry that
stands for itself, then one hash of all keyword entries when there are any, and each node that is
not passed over in exactly one of them. A call whose entries differ in blocks and comments only has
arguments of the same kinds, flags, labels and texts. The text of an argument runs from the start of
its first node to the end of its last. -/
theorem Node.arguments_group_entries (src : Source) (call : Node) :
    Argument.Groups call.argumentEntries call.arguments ∧
    (∀ other : Node,
      (call.argumentEntries.filter fun e ↦ e.kind ∉ passedOverKinds) =
        (other.argumentEntries.filter fun e ↦ e.kind ∉ passedOverKinds) →
      call.arguments.map (Argument.passed src) = other.arguments.map (Argument.passed src)) ∧
    ∀ a ∈ call.arguments, ∃ first last, a.nodes.head? = some first ∧
      a.nodes.getLast? = some last ∧ (a.facts src).source = src.span first.start last.stop := by
  refine ⟨?groups, ?passed, fun a _ ↦ a.source_facts src⟩
  case groups =>
    rw [arguments_eq_groupArguments]
    exact Argument.groups_groupArguments call.argumentEntries
  case passed =>
    intro other h
    rw [arguments_eq_groupArguments, arguments_eq_groupArguments, Argument.groupArguments_congr h]

namespace MixedEntries

/-- The text of a call whose keywords stand around a positional argument, with a comment and a
block. -/
def text : Source :=
  Text.Codec.utf8.source "f(k: 1, #c\n2, **o, &b)".toUTF8.toList

def pair : Node where
  kind := "pair"
  start := 2
  stop := 6
  children := [
    { kind := "hash_key_symbol", role := some "key", start := 2, stop := 3 },
    { kind := ":", named := false, start := 3, stop := 4 },
    { kind := "integer", role := some "value", start := 5, stop := 6 }]

def two : Node :=
  { kind := "integer", start := 11, stop := 12 }

def splat : Node :=
  { kind := "hash_splat_argument", start := 14, stop := 17 }

/-- The node of the call with some entries. -/
def call (entries : List Node) : Node where
  kind := "call"
  stop := 22
  children := [
    { kind := "identifier", role := some "method", stop := 1 },
    { kind := "argument_list", role := some "arguments", start := 1, stop := 22,
      children := entries }]

/-- All that is written between the parentheses. -/
def whole : Node :=
  call [pair, { kind := "comment", start := 8, stop := 10 }, two, splat,
    { kind := "block_argument", start := 19, stop := 21 }]

end MixedEntries

open MixedEntries

/-- The keywords go to one hash at the end, and the comment and the block to no argument. The text
of the hash holds all that stands between its first node and its last. -/
theorem Node.arguments_group_entries_of_mixed_entries :
    (whole.argumentEntries.filter fun e ↦ e.kind ∉ passedOverKinds) =
        ((call [pair, two, splat]).argumentEntries.filter fun e ↦ e.kind ∉ passedOverKinds) ∧
      (call [pair, two, splat]).arguments.map (Argument.passed text) =
        [⟨"integer", ⟨"2", false, true, [], false⟩⟩,
          ⟨"hash", ⟨"k: 1, #c\n2, **o", true, true, ["k:"], true⟩⟩] ∧
      whole.arguments.map (Argument.passed text) =
        [⟨"integer", ⟨"2", false, true, [], false⟩⟩,
          ⟨"hash", ⟨"k: 1, #c\n2, **o", true, true, ["k:"], true⟩⟩] := by
  have hentries : (whole.argumentEntries.filter fun e ↦ e.kind ∉ passedOverKinds) =
      ((call [pair, two, splat]).argumentEntries.filter fun e ↦ e.kind ∉ passedOverKinds) := rfl
  have hpassed : (call [pair, two, splat]).arguments.map (Argument.passed text) =
      [⟨"integer", ⟨"2", false, true, [], false⟩⟩,
        ⟨"hash", ⟨"k: 1, #c\n2, **o", true, true, ["k:"], true⟩⟩] := by
    decide +kernel
  have hsame := (Node.arguments_group_entries text whole).2.1 (call [pair, two, splat]) hentries
  exact ⟨hentries, hpassed, hsame.trans hpassed⟩

end CallBinding
