/-
Settings that are written to a file are loaded as they were.

The writer gives every member of every structure, so no standard value is ever filled in, and a
table written in the order of its keys is filled again to the same table.  The statement this file
exists for is `load_written`.
-/
import InputDeck.Proofs.FileSystem.ReadBack
import InputDeck.Proofs.Json.Printed
import InputDeck.Proofs.Table.Contents
import InputDeck.Settings.Printer

namespace InputDeck

theorem Table.ofList_entries {κ α : Type} [Ord κ] [Std.LawfulEqOrd κ] [Std.TransOrd κ]
    (t : Table κ α) : Table.ofList t.entries = t := by
  apply Table.ext
  intro k
  rw [Table.get?_ofList, Table.lookup_reverse t.pairwise_ne_entries]
  rfl

namespace Settings

open Json

/-! ## The tree of settings -/

def stringTree (s : String) : Tree := .string (Escape.encode s.toList)

def subdirectoryTree : Option String → Tree
  | none => .null
  | some s => stringTree s

def layoutTree (subdirectory : Option String) : Tree :=
  .object [(Escape.encode subdirectoryKey, subdirectoryTree subdirectory)] true

def extensionsTree (extensions : List String) : Tree := .array (extensions.map stringTree) true

def typeMember (e : String × Option String) : List Char × Tree :=
  (Escape.encode e.1.toList, layoutTree e.2)

def typesTree (types : AnalysisTypes) : Tree := .object (types.entries.map typeMember) true

def tree (s : Settings) : Tree :=
  .object [(Escape.encode extensionsKey, extensionsTree s.extensions),
    (Escape.encode analysisTypesKey, typesTree s.analysisTypes)] true

/-! ## Its text -/

theorem memberText_encode (key : List Char) (t : Tree) :
    Tree.memberText (Escape.encode key, t) = member key t.text := rfl

theorem text_subdirectoryTree (subdirectory : Option String) :
    (subdirectoryTree subdirectory).text = subdirectoryText subdirectory := by
  cases subdirectory with
  | none => rfl
  | some s => exact Tree.text_string s.toList

theorem text_layoutTree (subdirectory : Option String) :
    (layoutTree subdirectory).text = layoutText subdirectory := by
  rw [layoutTree, Tree.text_object, List.map_singleton, memberText_encode, text_subdirectoryTree]
  rfl

theorem text_extensionsTree (extensions : List String) :
    (extensionsTree extensions).text =
      bracketed '[' ']' (extensions.map fun e => Escape.quoted e.toList) := by
  have htexts : (extensions.map stringTree).map Tree.text =
      extensions.map fun e => Escape.quoted e.toList := by
    rw [List.map_map]
    exact List.map_congr_left fun e _ => Tree.text_string e.toList
  rw [extensionsTree, Tree.text_array, htexts]
  rfl

theorem text_typesTree (types : AnalysisTypes) :
    (typesTree types).text =
      bracketed '{' '}' (types.entries.map fun e => member e.1.toList (layoutText e.2)) := by
  have htexts : (types.entries.map typeMember).map Tree.memberText =
      types.entries.map fun e => member e.1.toList (layoutText e.2) := by
    rw [List.map_map]
    refine List.map_congr_left fun e _ => ?_
    rw [← text_layoutTree]
    rfl
  rw [typesTree, Tree.text_object, htexts]
  rfl

theorem text_tree (s : Settings) : s.tree.text = s.text := by
  rw [tree, Tree.text_object, List.map_cons, List.map_singleton, memberText_encode,
    memberText_encode, text_extensionsTree, text_typesTree]
  rfl

theorem printed_layoutTree (subdirectory : Option String) : (layoutTree subdirectory).Printed := by
  have hsubdirectory : (subdirectoryTree subdirectory).Printed := by
    cases subdirectory with
    | none => exact Tree.printed_null
    | some s => exact Tree.printed_string s.toList
  refine Tree.printed_object ?_
  rw [List.forall_mem_singleton]
  exact ⟨⟨_, rfl⟩, hsubdirectory⟩

theorem printed_tree (s : Settings) : s.tree.Printed := by
  have hextensions : (extensionsTree s.extensions).Printed := by
    refine Tree.printed_array ?_
    intro t ht
    obtain ⟨e, -, rfl⟩ := List.mem_map.1 ht
    exact Tree.printed_string e.toList
  have htypes : (typesTree s.analysisTypes).Printed := by
    refine Tree.printed_object ?_
    intro member hmember
    obtain ⟨e, -, rfl⟩ := List.mem_map.1 hmember
    exact ⟨⟨_, rfl⟩, printed_layoutTree e.2⟩
  refine Tree.printed_object ?_
  simp only [List.mem_cons, List.not_mem_nil, or_false]
  rintro member (rfl | rfl)
  · exact ⟨⟨_, rfl⟩, hextensions⟩
  · exact ⟨⟨_, rfl⟩, htypes⟩

/-! ## Reading it -/

theorem readKey_encode (cs : List Char) : readKey (Escape.encode cs) = .ok cs := by
  rw [readKey, Escape.decode_encode]

theorem readString_stringTree (s : String) : readString (stringTree s) = .ok s := by
  rw [stringTree, readString, readKey_encode]
  exact congrArg Except.ok String.ofList_toList

theorem readStrings_extensionsTree (extensions : List String) :
    readStrings (extensionsTree extensions) = .ok extensions := by
  have hitems : (extensions.map stringTree).mapM readString = .ok extensions := by
    rw [Result.mapM_eq_ok_iff, List.forall₂_map_left_iff, List.forall₂_same]
    exact fun e _ => readString_stringTree e
  rw [extensionsTree, readStrings, hitems]
  rfl

theorem readSubdirectory_subdirectoryTree (subdirectory : Option String) :
    readSubdirectory (subdirectoryTree subdirectory) = .ok subdirectory := by
  cases subdirectory with
  | none => rfl
  | some s =>
      rw [subdirectoryTree, readSubdirectory, readString_stringTree]
      · rfl
      · simp [stringTree]

theorem readOnce_none {α : Type} {read : Tree → Except JsonFault α} {t : Tree} {a : α}
    (h : read t = .ok a) : readOnce none read t = .ok (some a) := by
  rw [readOnce, h]
  rfl

theorem readLayoutMembers_subdirectory (seen : Option (Option String)) (t : Tree)
    (rest : List (List Char × Tree)) :
    readLayoutMembers seen ((Escape.encode subdirectoryKey, t) :: rest) =
      (readOnce seen readSubdirectory t).bind fun seen => readLayoutMembers seen rest := by
  rw [readLayoutMembers, readKey_encode]
  simp only [bind, Except.bind, if_true]

theorem readLayout_layoutTree (subdirectory : Option String) :
    readLayout (layoutTree subdirectory) = .ok subdirectory := by
  have hread := readOnce_none (readSubdirectory_subdirectoryTree subdirectory)
  rw [layoutTree, readLayout, readLayoutMembers_subdirectory, hread]
  rfl

theorem readTypeMembers_map (entries : List (String × Option String)) (types : AnalysisTypes) :
    readTypeMembers types (entries.map typeMember) =
      .ok (entries.foldl (fun types e => types.insert e.1 e.2) types) := by
  induction entries generalizing types with
  | nil => rfl
  | cons e rest ih =>
      rw [List.map_cons, typeMember, readTypeMembers, readKey_encode, readLayout_layoutTree]
      show readTypeMembers (types.insert (String.ofList e.1.toList) e.2) _ = _
      rw [String.ofList_toList, ih]
      rfl

theorem readTypes_typesTree (types : AnalysisTypes) : readTypes (typesTree types) = .ok types := by
  have hmembers := readTypeMembers_map types.entries ∅
  rw [typesTree, readTypes, hmembers]
  exact congrArg Except.ok types.ofList_entries

theorem readMembers_extensions (extensions : Option (List String)) (types : Option AnalysisTypes)
    (t : Tree) (rest : List (List Char × Tree)) :
    readMembers extensions types ((Escape.encode extensionsKey, t) :: rest) =
      (readOnce extensions readStrings t).bind fun extensions =>
        readMembers extensions types rest := by
  rw [readMembers, readKey_encode]
  simp only [bind, Except.bind, if_true]

theorem readMembers_analysisTypes (extensions : Option (List String))
    (types : Option AnalysisTypes) (t : Tree) (rest : List (List Char × Tree)) :
    readMembers extensions types ((Escape.encode analysisTypesKey, t) :: rest) =
      (readOnce types readTypes t).bind fun types => readMembers extensions types rest := by
  have hkey : analysisTypesKey ≠ extensionsKey := by decide
  rw [readMembers, readKey_encode]
  simp only [bind, Except.bind, if_neg hkey, if_true]

theorem ofTree_tree (s : Settings) : ofTree s.tree = .ok s := by
  rw [tree, ofTree, readMembers_extensions, readOnce_none (readStrings_extensionsTree s.extensions)]
  show (readMembers (some s.extensions) none _).bind _ = _
  rw [readMembers_analysisTypes, readOnce_none (readTypes_typesTree s.analysisTypes)]
  rfl

theorem ofJsonText_text (s : Settings) : ofJsonText s.text = .ok s := by
  rw [ofJsonText, ← text_tree, Tree.ofText_text s.printed_tree]
  dsimp only
  rw [ofTree_tree]
  rfl

/-! ## Through a file -/

/-- Any settings come back from the file that they are written to, whatever the file system. -/
theorem load_written (s : Settings) {p : Path} {fs fs' : FileSystem}
    (h : Job.on (Job.writeText p s.text) fs = (.ok (), fs')) :
    Job.on (load p) fs' = (.ok s, fs') := by
  rw [on_load, text_of_writeText h]
  exact congrArg (·, fs') s.ofJsonText_text

/-! Strings of all kinds, written through a link. -/

def oddSettings : Settings :=
  ⟨["a\"b\\", "", "\x01\n", "😀", ""], .ofList [("/", some ""), ("", none), ("\t", some "..\\é")]⟩

def withLink : FileSystem := FileSystem.root.insert [Text.utf8 "l"] (.link (.ofString "c"))

theorem load_written_through_link : ∃ fs',
    Job.on (Job.writeText (.ofString "l") oddSettings.text) withLink = (.ok (), fs') ∧
    Job.on (load (.ofString "l")) fs' = (.ok oddSettings, fs') := by
  have hwrite : Job.on (Job.writeText (.ofString "l") oddSettings.text) withLink =
      (.ok (), withLink.insert [Text.utf8 "c"]
        (.file (.bytes (String.ofList oddSettings.text).toUTF8))) := rfl
  exact ⟨_, hwrite, load_written oddSettings hwrite⟩

end Settings
end InputDeck
