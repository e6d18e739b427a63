import Synvoid.Dns.Zone

/-! # The zone trie as a set of origins

    Model of the remaining operations of `ZoneTrie` (`zone_trie.rs`) with its
    counter, and the set that it stands for: origins under their labels, without
    empty labels and in lower case.

    * `zoneAt_insertAt`, `zoneAt_removeAt`: what the paths lead to afterwards;
    * `findFrom_spec`: a lookup gives the last zone on its path;
    * `zoneTrie_refines_set`: every sequence of calls.

    Removal leaves the nodes of the path behind, so the trie is compared with the
    set by its paths and not by its shape. An origin without labels is never
    inserted.
-/

namespace Synvoid.Dns

open Synvoid.Framework

namespace TrieNode

/-- The zone at the end of a path. -/
def zoneAt : List Str → TrieNode → Option Str
  | [], node => node.zoneOrigin
  | label :: rest, node => (node.children.lookup label).bind fun child => zoneAt rest child

/-- Takes the zone at the end of the path away; the nodes stay. -/
def removeAt : List Str → TrieNode → TrieNode
  | [], node => .mk node.children none
  | label :: rest, node =>
      match node.children.lookup label with
      | none => node
      | some child =>
          .mk ((label, removeAt rest child) :: node.children.filter (·.1 ≠ label)) node.zoneOrigin

end TrieNode

/-- A trie with the number of its zones. -/
structure CountedTrie extends ZoneTrie where
  count : Nat

namespace CountedTrie

variable (lib : Externals)

def new : CountedTrie where
  toZoneTrie := .new
  count := 0

def contains (trie : CountedTrie) (origin : Str) : Bool :=
  if ZoneTrie.path lib origin = [] then false
  else (trie.root.zoneAt (ZoneTrie.path lib origin)).isSome

def insert (trie : CountedTrie) (origin : Str) : Bool × CountedTrie :=
  if ZoneTrie.path lib origin = [] then (false, trie)
  else if (trie.root.zoneAt (ZoneTrie.path lib origin)).isSome then
    (false, ⟨trie.toZoneTrie.insert lib origin, trie.count⟩)
  else (true, ⟨trie.toZoneTrie.insert lib origin, trie.count + 1⟩)

/-- `none` if the counter underflows. -/
def remove (trie : CountedTrie) (origin : Str) : Option (Bool × CountedTrie) :=
  if ZoneTrie.path lib origin = [] then some (false, trie)
  else if (trie.root.zoneAt (ZoneTrie.path lib origin)).isSome then
    if trie.count = 0 then none
    else some (true, ⟨⟨trie.root.removeAt (ZoneTrie.path lib origin)⟩, trie.count - 1⟩)
  else some (false, trie)

def len (trie : CountedTrie) : Nat := trie.count

def clear (_trie : CountedTrie) : CountedTrie := new

end CountedTrie

inductive TrieCall where
  | insert (origin : Str)
  | remove (origin : Str)
  | clear

def CountedTrie.call (lib : Externals) (trie : CountedTrie) : TrieCall → Option CountedTrie
  | .insert origin => some (trie.insert lib origin).2
  | .remove origin => (trie.remove lib origin).map Prod.snd
  | .clear => some trie.clear

def CountedTrie.run (lib : Externals) (calls : List TrieCall) : Option CountedTrie :=
  calls.foldlM (CountedTrie.call lib) .new

/-! ### The set -/

/-- The origins in the set, under their labels. -/
abbrev Members := Table (List Str) Str

/-- An origin in lower case and without the dots at its end. -/
def normalOrigin (lib : Externals) (origin : Str) : Str :=
  lib.toLowercase (trimEndMatches '.' origin)

/-- The labels of a name in lower case. -/
def nameLabels (lib : Externals) (name : Str) : List Str := labels (normalOrigin lib name)

def Members.call (lib : Externals) (members : Members) : TrieCall → Members
  | .insert origin =>
      if nameLabels lib origin = [] ∨ (members.lookup (nameLabels lib origin)).isSome then members
      else members.insert (nameLabels lib origin) (normalOrigin lib origin)
  | .remove origin => members.erase (nameLabels lib origin)
  | .clear => ∅

def Members.run (lib : Externals) (calls : List TrieCall) : Members :=
  calls.foldl (Members.call lib) ∅

/-- `result` is the member whose labels are the longest end of `name`. -/
def LongestMatch (members : Members) (name : List Str) : Option Str → Prop
  | some origin => ∃ suffix, suffix <:+ name ∧ members.lookup suffix = some origin ∧
      ∀ other, other <:+ name → (members.lookup other).isSome → other.length ≤ suffix.length
  | none => ∀ suffix, suffix <:+ name → members.lookup suffix = none

/-! ### Paths -/

namespace TrieNode

theorem lookup_filter_ne (children : List (Str × TrieNode)) {label label' : Str}
    (h : label' ≠ label) :
    (children.filter (·.1 ≠ label)).lookup label' = children.lookup label' := by
  induction children with
  | nil => rfl
  | cons child children ih =>
    obtain ⟨key, node⟩ := child
    by_cases hkey : key = label
    · subst hkey
      rw [List.filter_cons_of_neg (by simp), ih, List.lookup_cons, beq_false_of_ne h]
    · rw [List.filter_cons_of_pos (by simpa using hkey), List.lookup_cons, List.lookup_cons, ih]

/-- A child that is put under a label is found there, and the others stay. -/
theorem zoneAt_setChild (children : List (Str × TrieNode)) (label : Str) (child : TrieNode)
    (origin : Option Str) (label' : Str) (rest : List Str) :
    zoneAt (label' :: rest) (.mk ((label, child) :: children.filter (·.1 ≠ label)) origin) =
      if label' = label then zoneAt rest child
      else (children.lookup label').bind (zoneAt rest) := by
  rw [zoneAt, TrieNode.children, List.lookup_cons]
  split_ifs with h
  · rw [h, beq_self_eq_true]
    rfl
  · rw [beq_false_of_ne h, lookup_filter_ne _ h]

@[simp] theorem zoneAt_empty (path : List Str) : zoneAt path empty = none := by
  cases path with
  | nil => rfl
  | cons label rest => rfl

/-- Behind a child that may be missing. -/
theorem zoneAt_getD_empty (child : Option TrieNode) (path : List Str) :
    zoneAt path (child.getD empty) = child.bind (zoneAt path) := by
  cases child with
  | none => exact zoneAt_empty path
  | some child => rfl

theorem zoneAt_insertAt (origin : Str) (path : List Str) (node : TrieNode) (path' : List Str) :
    zoneAt path' (insertAt origin path node) =
      if path' = path then (zoneAt path node).orElse fun _ => some origin
      else zoneAt path' node := by
  induction path generalizing node path' with
  | nil =>
    cases path' with
    | nil => rfl
    | cons label rest => rfl
  | cons label rest ih =>
    cases path' with
    | nil => rfl
    | cons label' rest' =>
      rw [insertAt, zoneAt_setChild]
      by_cases hlabel : label' = label
      · subst hlabel
        rw [if_pos rfl, ih, zoneAt_getD_empty, zoneAt_getD_empty]
        simp [zoneAt]
      · rw [if_neg hlabel, if_neg (by simp [hlabel])]
        rfl

theorem zoneAt_removeAt (path : List Str) (node : TrieNode) (path' : List Str) :
    zoneAt path' (removeAt path node) = if path' = path then none else zoneAt path' node := by
  induction path generalizing node path' with
  | nil =>
    cases path' with
    | nil => rfl
    | cons label rest => rfl
  | cons label rest ih =>
    rw [removeAt]
    cases hchild : node.children.lookup label with
    | none =>
      -- nothing lies on the path
      split_ifs with h
      · rw [h, zoneAt, hchild]
        rfl
      · rfl
    | some child =>
      cases path' with
      | nil => rfl
      | cons label' rest' =>
        simp only
        rw [zoneAt_setChild]
        by_cases hlabel : label' = label
        · subst hlabel
          rw [if_pos rfl, ih]
          simp [zoneAt, hchild]
        · rw [if_neg hlabel, if_neg (by simp [hlabel])]
          rfl

/-- A lookup gives the last zone on its path, or what it had before. -/
theorem findFrom_spec (path : List Str) (node : TrieNode) (bestMatch : Option Str) :
    (∃ front origin, front <+: path ∧ front ≠ [] ∧ zoneAt front node = some origin ∧
      node.findFrom path bestMatch = some origin ∧
      ∀ other, other <+: path → other ≠ [] → (zoneAt other node).isSome →
        other.length ≤ front.length) ∨
    (node.findFrom path bestMatch = bestMatch ∧
      ∀ other, other <+: path → other ≠ [] → zoneAt other node = none) := by
  induction path generalizing node bestMatch with
  | nil =>
    refine .inr ⟨by rw [findFrom], fun other hother hne => ?_⟩
    exact absurd (List.prefix_nil.mp hother) hne
  | cons label rest ih =>
    cases hchild : node.children.lookup label with
    | none =>
      refine .inr ⟨by rw [findFrom, hchild], fun other hother hne => ?_⟩
      obtain ⟨rest', rfl, -⟩ := (List.prefix_cons_iff.mp hother).resolve_left hne
      rw [zoneAt, hchild]
      rfl
    | some child =>
      have hdown : ∀ rest', zoneAt (label :: rest') node = zoneAt rest' child := by
        intro rest'
        rw [zoneAt, hchild]
        rfl
      have hfind : node.findFrom (label :: rest) bestMatch =
          child.findFrom rest (child.zoneOrigin.orElse fun _ => bestMatch) := by
        rw [findFrom, hchild]
      rcases ih child (child.zoneOrigin.orElse fun _ => bestMatch) with
        ⟨front, origin, hfront, -, hzone, hresult, hlongest⟩ | ⟨hresult, hnone⟩
      · refine .inl ⟨label :: front, origin, List.cons_prefix_cons.mpr ⟨rfl, hfront⟩,
          List.cons_ne_nil _ _, by rw [hdown, hzone], by rw [hfind, hresult],
          fun other hother hne hsome => ?_⟩
        obtain ⟨rest', rfl, hrest'⟩ := (List.prefix_cons_iff.mp hother).resolve_left hne
        rw [hdown] at hsome
        rcases eq_or_ne rest' [] with rfl | hne'
        · simp
        · simpa using hlongest rest' hrest' hne' hsome
      · cases horigin : child.zoneOrigin with
        | some origin =>
          -- the child itself is the last zone
          refine .inl ⟨[label], origin, by simp, by simp, by rw [hdown]; exact horigin,
            by rw [hfind, hresult, horigin]; rfl, fun other hother hne hsome => ?_⟩
          obtain ⟨rest', rfl, hrest'⟩ := (List.prefix_cons_iff.mp hother).resolve_left hne
          rcases eq_or_ne rest' [] with rfl | hne'
          · simp
          · rw [hdown, hnone rest' hrest' hne'] at hsome
            cases hsome
        | none =>
          refine .inr ⟨by rw [hfind, hresult, horigin]; rfl, fun other hother hne => ?_⟩
          obtain ⟨rest', rfl, hrest'⟩ := (List.prefix_cons_iff.mp hother).resolve_left hne
          rw [hdown]
          rcases eq_or_ne rest' [] with rfl | hne'
          · exact horigin
          · exact hnone rest' hrest' hne'

end TrieNode

/-! ### Refinement -/

/-- The paths of the trie lead to the members, and the counter is their number. -/
structure Represents (trie : CountedTrie) (members : Members) : Prop where
  zones : ∀ name : List Str, trie.root.zoneAt name.reverse = members.lookup name
  count : trie.count = members.entries.length
  root : members.lookup [] = none

theorem path_eq_reverse (lib : Externals) (name : Str) :
    ZoneTrie.path lib name = (nameLabels lib name).reverse := rfl

theorem path_eq_nil (lib : Externals) (name : Str) :
    ZoneTrie.path lib name = [] ↔ nameLabels lib name = [] := List.reverse_eq_nil_iff

theorem represents_new : Represents .new ∅ where
  zones := fun name => TrieNode.zoneAt_empty name.reverse
  count := rfl
  root := rfl

variable {lib : Externals} {trie : CountedTrie} {members : Members}

/-- The zone of an origin is its member. -/
theorem Represents.zoneAt_path (h : Represents trie members) (origin : Str) :
    trie.root.zoneAt (ZoneTrie.path lib origin) = members.lookup (nameLabels lib origin) := by
  rw [path_eq_reverse, h.zones]

theorem Represents.insert (h : Represents trie members) (origin : Str) :
    Represents (trie.insert lib origin).2 (members.call lib (.insert origin)) := by
  unfold CountedTrie.insert Members.call
  rw [h.zoneAt_path]
  simp only [path_eq_nil]
  by_cases hempty : nameLabels lib origin = []
  · rw [if_pos hempty, if_pos (.inl hempty)]
    exact h
  rw [if_neg hempty]
  have hzones : ∀ name : List Str,
      (trie.toZoneTrie.insert lib origin).root.zoneAt name.reverse =
        if name = nameLabels lib origin then
          (members.lookup name).orElse fun _ => some (normalOrigin lib origin)
        else members.lookup name := by
    intro name
    rw [ZoneTrie.insert, if_neg (by rwa [path_eq_nil]), TrieNode.zoneAt_insertAt, path_eq_reverse]
    simp only [List.reverse_inj, h.zones]
    split_ifs with hname
    · rw [hname]
      rfl
    · rfl
  by_cases hmember : (members.lookup (nameLabels lib origin)).isSome = true
  · rw [if_pos hmember, if_pos (.inr hmember)]
    refine ⟨fun name => ?_, h.count, h.root⟩
    rw [hzones]
    split_ifs with hname
    · obtain ⟨old, hold⟩ := Option.isSome_iff_exists.mp hmember
      rw [hname, hold]
      rfl
    · rfl
  · rw [if_neg hmember, if_neg (by simp [hempty, hmember])]
    refine ⟨fun name => ?_, ?_, ?_⟩
    · rw [hzones, Table.lookup_insert_eq]
      split_ifs with hname
      · rw [hname, Option.not_isSome_iff_eq_none.mp hmember]
        rfl
      · rfl
    · rw [Table.length_insert, if_neg hmember]
      exact congrArg (· + 1) h.count
    · rw [Table.lookup_insert_eq, if_neg (Ne.symm hempty), h.root]

/-- Removal never takes the counter below zero. -/
theorem Represents.remove (lib : Externals) (h : Represents trie members) (origin : Str) :
    ∃ result, trie.remove lib origin = some result ∧
      Represents result.2 (members.call lib (.remove origin)) := by
  unfold CountedTrie.remove Members.call
  rw [h.zoneAt_path]
  simp only [path_eq_nil]
  have habsent : (members.lookup (nameLabels lib origin)).isSome ≠ true →
      Represents trie (members.erase (nameLabels lib origin)) := by
    intro hnone
    have herase : members.erase (nameLabels lib origin) = members :=
      AList.ext (List.kerase_of_notMem_keys fun hkey => hnone (AList.lookup_isSome.mpr hkey))
    rwa [herase]
  by_cases hmember : (members.lookup (nameLabels lib origin)).isSome = true
  · have hlength := Table.length_erase hmember
    have hcount := h.count
    have hlabels : nameLabels lib origin ≠ [] := by
      intro hempty
      rw [hempty, h.root] at hmember
      cases hmember
    rw [if_neg hlabels, if_pos hmember, if_neg (by omega)]
    refine ⟨_, rfl, fun name => ?_, by simp only; omega, ?_⟩
    · simp only
      rw [TrieNode.zoneAt_removeAt, path_eq_reverse, Table.lookup_erase_eq, h.zones]
      simp only [List.reverse_inj]
    · rw [Table.lookup_erase_eq, if_neg (Ne.symm hlabels), h.root]
  · refine ⟨(false, trie), ?_, habsent hmember⟩
    split_ifs
    · rfl
    · rfl

theorem Represents.call (lib : Externals) (h : Represents trie members) (call : TrieCall) :
    ∃ trie', trie.call lib call = some trie' ∧ Represents trie' (members.call lib call) := by
  cases call with
  | insert origin => exact ⟨_, rfl, h.insert origin⟩
  | remove origin =>
    obtain ⟨result, hresult, hrepresents⟩ := h.remove lib origin
    exact ⟨result.2, by rw [CountedTrie.call, hresult]; rfl, hrepresents⟩
  | clear => exact ⟨_, rfl, represents_new⟩

theorem Represents.foldl (lib : Externals) (h : Represents trie members) (calls : List TrieCall) :
    ∃ trie', calls.foldlM (CountedTrie.call lib) trie = some trie' ∧
      Represents trie' (calls.foldl (Members.call lib) members) := by
  induction calls generalizing trie members with
  | nil => exact ⟨trie, rfl, h⟩
  | cons call calls ih =>
    obtain ⟨trie₁, hcall, hrepresents⟩ := h.call lib call
    obtain ⟨trie₂, hcalls, hlast⟩ := ih hrepresents
    exact ⟨trie₂, by rw [List.foldlM_cons, hcall]; exact hcalls, hlast⟩

/-- A lookup finds the member with the longest labels. -/
theorem Represents.findZone (h : Represents trie members) (name : Str) :
    LongestMatch members (nameLabels lib name) (trie.findZone lib name) := by
  have hfronts : ∀ suffix, suffix <:+ nameLabels lib name ↔
      suffix.reverse <+: ZoneTrie.path lib name := fun suffix => List.reverse_prefix.symm
  have hne : ∀ suffix, (members.lookup suffix).isSome → suffix.reverse ≠ [] := by
    intro suffix hsome hnil
    rw [List.reverse_eq_nil_iff.mp hnil, h.root] at hsome
    cases hsome
  rcases TrieNode.findFrom_spec (ZoneTrie.path lib name) trie.root none with
    ⟨front, origin, hfront, -, hzone, hresult, hlongest⟩ | ⟨hresult, hnone⟩
  · rw [ZoneTrie.findZone, hresult]
    refine ⟨front.reverse, by rwa [hfronts, List.reverse_reverse], ?_, fun other hother hsome => ?_⟩
    · rw [← h.zones, List.reverse_reverse, hzone]
    · have hle := hlongest other.reverse ((hfronts other).mp hother) (hne other hsome)
        (by rwa [h.zones])
      simpa using hle
  · rw [ZoneTrie.findZone, hresult]
    intro suffix hsuffix
    by_contra hsome
    have hsome' := Option.isSome_iff_ne_none.mpr hsome
    refine hsome ?_
    rw [← h.zones]
    exact hnone suffix.reverse ((hfronts suffix).mp hsuffix) (hne suffix hsome')

theorem Represents.contains (h : Represents trie members) (origin : Str) :
    trie.contains lib origin = (members.lookup (nameLabels lib origin)).isSome := by
  rw [CountedTrie.contains, h.zoneAt_path]
  simp only [path_eq_nil]
  split_ifs with hempty
  · rw [hempty, h.root]
    rfl
  · rfl

/-- **Refinement**: after every sequence of calls the trie answers as the set of
    origins does. -/
theorem zoneTrie_refines_set (lib : Externals) (calls : List TrieCall) :
    ∃ trie, CountedTrie.run lib calls = some trie ∧
      (∀ name, LongestMatch (Members.run lib calls) (nameLabels lib name)
        (trie.findZone lib name)) ∧
      (∀ origin, trie.contains lib origin =
        ((Members.run lib calls).lookup (nameLabels lib origin)).isSome) ∧
      trie.len = (Members.run lib calls).entries.length := by
  obtain ⟨trie, hrun, hrepresents⟩ := represents_new.foldl lib calls
  exact ⟨trie, hrun, hrepresents.findZone, hrepresents.contains, hrepresents.count⟩

/-! ### Origins as texts -/

/-- The set of the origins that are inserted, as texts. -/
def originsAfter (lib : Externals) (calls : List TrieCall) : Finset Str :=
  calls.foldl (fun origins call =>
    match call with
    | .insert origin => insert (normalOrigin lib origin) origins
    | .remove origin => origins.erase (normalOrigin lib origin)
    | .clear => ∅) ∅

/-- The trie answers as the set of texts does. -/
def RefinesOrigins (lib : Externals) (calls : List TrieCall) : Prop :=
  ∃ trie, CountedTrie.run lib calls = some trie ∧
    (∀ name origin, trie.findZone lib name = some origin →
      origin ∈ originsAfter lib calls ∧ labels origin <:+ nameLabels lib name ∧
        ∀ other ∈ originsAfter lib calls, labels other <:+ nameLabels lib name →
          (labels other).length ≤ (labels origin).length) ∧
    (∀ name, trie.findZone lib name = none →
      ∀ origin ∈ originsAfter lib calls, ¬ labels origin <:+ nameLabels lib name) ∧
    (∀ origin, trie.contains lib origin =
      decide (normalOrigin lib origin ∈ originsAfter lib calls)) ∧
    trie.len = (originsAfter lib calls).card

/-- The root is no member after it is inserted, and two spellings of one name are
    one member. -/
theorem origins_are_not_texts :
    ¬ RefinesOrigins asciiExternals [.insert ".".toList] ∧
      ¬ RefinesOrigins asciiExternals [.insert "a.b".toList, .insert "a..b".toList] := by
  constructor
  · rintro ⟨trie, hrun, -, -, -, hlen⟩
    obtain rfl := Option.some.inj hrun
    revert hlen
    decide
  · rintro ⟨trie, hrun, -, -, -, hlen⟩
    obtain rfl := Option.some.inj hrun
    revert hlen
    decide

end Synvoid.Dns
