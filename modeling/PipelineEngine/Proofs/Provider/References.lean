import Mathlib.Data.List.DropRight
import PipelineEngine.Proofs.Fallible
import PipelineEngine.Proofs.Provider.Images
import PipelineEngine.Proofs.Text.Lowered

/-!
# Provider references and their texts

A reference says what it was read from: a name behind `builtin:`, an image behind `docker:`, a
builder and a path with a colon between them, or a directory behind `file:` with the name of a
Dockerfile behind it.  That name is recognised in lower case and cut off by its number of bytes;
it has as many in either case, but more where a Kelvin sign stands for its `k`.

* `ProviderRef.dropLastBytes_append`: cutting off the bytes of the last characters leaves the rest.
* `ProviderRef.isSpelled_or_isFile_of_parseTrimmed`: what a reference is read from.
* `ProviderRef.parse_display`: references other than images are read again from what is shown of
  them.
* `ProviderRef.isSpelled_iff_of_parse` is the main statement.
-/

namespace PipelineEngine

namespace ProviderRef

/-! ## Cutting off bytes -/

theorem go_size_append (last rest : List Char) :
    dropLastBytes.go (Utf8.size last) (last ++ rest) = rest := by
  induction last with
  | nil => cases rest <;> rfl
  | cons c last ih =>
    have hpos := c.utf8Size_pos
    obtain ⟨n, hn⟩ : ∃ n, Utf8.size (c :: last) = n + 1 :=
      Nat.exists_eq_add_of_le' (by rw [Utf8.size_cons]; omega)
    rw [hn, List.cons_append, dropLastBytes.go, ← hn, Utf8.size_cons, Nat.add_sub_cancel_left, ih]
    exact Nat.succ_ne_zero n

theorem size_reverse (s : List Char) : Utf8.size s.reverse = Utf8.size s := by
  induction s with
  | nil => rfl
  | cons c s ih =>
    rw [List.reverse_cons, Utf8.size_append, ih, Utf8.size_cons, Utf8.size_cons, Utf8.size_nil]
    omega

/-- Cutting off the bytes of the last characters leaves the others. -/
theorem dropLastBytes_append (front last : List Char) :
    dropLastBytes (Utf8.size last) (front ++ last) = front := by
  rw [dropLastBytes, List.reverse_append, ← size_reverse last, go_size_append,
    List.reverse_reverse]

theorem endsInDockerfile_iff {s : List Char} :
    endsInDockerfile s = true ↔ dockerfileName <:+ Text.lower s := by
  rw [endsInDockerfile, List.isPrefixOf_iff_prefix, List.reverse_prefix]

/-! ## The name of a Dockerfile -/

section
variable {file : List Char} (hfile : List.Forall₂ Text.LowersTo file dockerfileName)

theorem isSmall_of_mem_dockerfileName : ∀ d ∈ dockerfileName, Text.IsSmall d := by
  unfold dockerfileName Text.IsSmall
  simp

include hfile

/-- The bytes that are cut off are the name, without its first two characters where a Kelvin sign
takes three bytes. -/
theorem size_drop_of_lowersTo :
    Utf8.size (file.drop (2 * file.count Text.kelvinSign)) = dockerfileName.length := by
  have hcount : file.count Text.kelvinSign ≤ 1 :=
    Text.count_kelvinSign_le hfile isSmall_of_mem_dockerfileName
  obtain hnone | hone := Nat.le_one_iff_eq_zero_or_eq_one.1 hcount
  · rw [hnone, Nat.mul_zero, List.drop_zero,
      Text.size_of_lowersTo hfile isSmall_of_mem_dockerfileName, hnone, Nat.mul_zero, Nat.add_zero]
  · have hfront : List.Forall₂ Text.LowersTo (file.take 2) "do".toList :=
      List.forall₂_take_append file "do".toList "ckerfile".toList hfile
    have hrest : List.Forall₂ Text.LowersTo (file.drop 2) "ckerfile".toList :=
      List.forall₂_drop_append file "do".toList "ckerfile".toList hfile
    have hcountFront : (file.take 2).count Text.kelvinSign ≤ 0 :=
      Text.count_kelvinSign_le hfront (by simp [Text.IsSmall])
    have hcountRest : (file.drop 2).count Text.kelvinSign = 1 := by
      rw [← List.take_append_drop 2 file, List.count_append] at hone
      omega
    rw [hone, Nat.mul_one, Text.size_of_lowersTo hrest (by simp [Text.IsSmall]), hcountRest]
    rfl

theorem dropLastBytes_file (front : List Char) :
    dropLastBytes dockerfileName.length (front ++ file) =
      front ++ file.take (2 * file.count Text.kelvinSign) := by
  have hcut := dropLastBytes_append (front ++ file.take (2 * file.count Text.kelvinSign))
    (file.drop (2 * file.count Text.kelvinSign))
  rwa [size_drop_of_lowersTo hfile, List.append_assoc, List.take_append_drop] at hcut

omit hfile

/-- The name is recognised behind the mark `file:`, not across it. -/
theorem exists_file_of_endsInDockerfile {path : List Char}
    (h : endsInDockerfile ("file:".toList ++ path) = true) :
    ∃ front file, path = front ++ file ∧ List.Forall₂ Text.LowersTo file dockerfileName := by
  obtain ⟨front, file, happend, hfile⟩ :=
    Text.exists_of_suffix_lower isSmall_of_mem_dockerfileName (endsInDockerfile_iff.1 h)
  rcases List.append_eq_append_iff.1 happend with ⟨rest, -, rfl⟩ | ⟨rest, hmark, rfl⟩
  · exact ⟨rest, file, rfl, hfile⟩
  · by_cases hnil : rest = []
    · subst hnil
      exact ⟨[], path, rfl, hfile⟩
    · have hlast : rest.getLast? = some ':' := by
        rw [← List.getLast?_append_of_ne_nil front hnil, ← hmark]
        rfl
      have hcolon : ':' ∈ rest ++ path :=
        List.mem_append_left _ (List.mem_of_getLast? hlast)
      exact absurd (Text.toLower_mem_of_lowersTo hfile hcolon (by decide)) (by decide)

end

/-! ## What a reference is read from -/

/-- The text that a reference is read from, as far as the reference says it: the name of a
Dockerfile is in letters of ASCII in either case. -/
def IsSpelled (s : List Char) : ProviderRef → Prop
  | .builtin name => s = "builtin:".toList ++ name.toList
  | .image ref => s = "docker:".toList ++ ref.text.toList
  | .dockerfile directory => ∃ file, file.map Char.toLower = dockerfileName ∧
      s = "file:".toList ++ (directory.toList ++ file)
  | .custom builder path => s = builder.toList ++ ':' :: path.toList

/-- What a Dockerfile is read from: the directory is what stands before the name, and the first two
characters of the name where a Kelvin sign takes three bytes. -/
structure IsFile (s : List Char) (directory : String) (front file : List Char) : Prop where
  text : s = "file:".toList ++ (front ++ file)
  name : List.Forall₂ Text.LowersTo file dockerfileName
  directory : directory.toList = front ++ file.take (2 * file.count Text.kelvinSign)

variable {s : List Char} {r : ProviderRef}

/-- What a reference without blanks around it is read from. -/
theorem isSpelled_or_isFile_of_parseTrimmed (h : parseTrimmed s = .ok r) :
    (∀ directory, r ≠ .dockerfile directory) ∧ r.IsSpelled s ∨
      ∃ directory front file, r = .dockerfile directory ∧ IsFile s directory front file := by
  rw [parseTrimmed] at h
  split at h
  · rename_i name hname
    split at h
    · cases h
    · cases h
      refine .inl ⟨nofun, ?_⟩
      rw [IsSpelled, @String.toList_ofList name]
      exact Text.dropMark?_eq_some_iff.1 hname
  · split at h
    · rename_i rest hrest
      obtain ⟨ref, href, rfl⟩ := Fallible.map_eq_ok_iff.1 h
      refine .inl ⟨nofun, ?_⟩
      rw [IsSpelled, ← (ImageRef.written_of_parse href).1, @String.toList_ofList rest]
      exact Text.dropMark?_eq_some_iff.1 hrest
    · split at h
      · rename_i hends
        split at h
        · rename_i path hpath
          cases h
          obtain rfl := Text.dropMark?_eq_some_iff.1 hpath
          obtain ⟨front, file, rfl, hfile⟩ := exists_file_of_endsInDockerfile hends
          refine .inr ⟨_, front, file, rfl, rfl, hfile, ?_⟩
          rw [String.toList_ofList, dropLastBytes_file hfile]
        · cases h
      · split at h
        · rename_i builder path hcut
          split at h
          · cases h
          · cases h
            refine .inl ⟨nofun, ?_⟩
            rw [IsSpelled, String.toList_ofList, String.toList_ofList, Text.cut?_eq_some hcut]
            simp
        · cases h

/-- A Dockerfile is spelled in letters of ASCII exactly where no Kelvin sign is in its name. -/
theorem IsFile.isSpelled_iff {directory : String} {front file : List Char}
    (h : IsFile s directory front file) :
    (ProviderRef.dockerfile directory).IsSpelled s ↔
      Text.kelvinSign ∉ s.rtake dockerfileName.length := by
  have hlength : file.length = dockerfileName.length := h.name.length_eq
  have hend : s.rtake dockerfileName.length = file := by
    rw [h.text, ← List.append_assoc, ← hlength, List.rtake, List.length_append,
      Nat.add_sub_cancel, List.drop_left]
  have hspelled := Text.map_toLower_iff h.name isSmall_of_mem_dockerfileName
  rw [hend, ← hspelled, IsSpelled]
  constructor
  · rintro ⟨file', hfile', htext⟩
    rw [h.text, h.directory, List.append_assoc] at htext
    have happend := List.append_cancel_left (List.append_cancel_left htext)
    have hskipped : (file.take (2 * file.count Text.kelvinSign)).length = 0 := by
      have hlengths := congrArg List.length happend
      have hlength' := congrArg List.length hfile'
      rw [List.length_map] at hlength'
      rw [List.length_append] at hlengths
      omega
    rw [List.length_eq_zero_iff.1 hskipped, List.nil_append] at happend
    rw [happend, hfile']
  · intro hname
    have hnone : file.count Text.kelvinSign = 0 := List.count_eq_zero.2 (hspelled.1 hname)
    refine ⟨file, hname, ?_⟩
    rw [h.directory, hnone, Nat.mul_zero, List.take_zero, List.append_nil, h.text]

/-- What is cut off are whole characters, of as many bytes as the name has. -/
theorem IsFile.exists_cut {directory : String} {front file : List Char}
    (h : IsFile s directory front file) :
    ∃ cut, s = "file:".toList ++ (directory.toList ++ cut) ∧
      Utf8.size cut = dockerfileName.length := by
  refine ⟨file.drop (2 * file.count Text.kelvinSign), ?_, size_drop_of_lowersTo h.name⟩
  rw [h.text, h.directory, List.append_assoc, List.take_append_drop]

/-! ## Reading what is shown -/

/-- What is shown of a Dockerfile in a directory. -/
def fileText (directory : String) : List Char :=
  "file:".toList ++ (directory.toList ++ "Dockerfile".toList)

theorem trim_fileText (directory : String) :
    Text.trim (fileText directory) = fileText directory := by
  have hlast : (fileText directory).getLast? = some 'e' := by
    rw [fileText, ← List.append_assoc, List.getLast?_append_of_ne_nil _ (by decide)]
    rfl
  refine Text.trim_eq_self ?_ ?_
  · rintro c ⟨⟩
    rfl
  · rw [hlast]
    rintro c ⟨⟩
    rfl

theorem parseTrimmed_fileText (directory : String) :
    parseTrimmed (fileText directory) = .ok (.dockerfile directory) := by
  have hbuiltin : Text.dropMark? "builtin:".toList (fileText directory) = none := rfl
  have hdocker : Text.dropMark? "docker:".toList (fileText directory) = none := rfl
  have hends : endsInDockerfile (fileText directory) = true := by
    rw [endsInDockerfile_iff, fileText, ← List.append_assoc]
    exact @Text.suffix_lower_append _ "Dockerfile".toList (by decide)
  have hfile : Text.dropMark? "file:".toList (fileText directory) =
      some (directory.toList ++ "Dockerfile".toList) := Text.dropMark?_eq_some_iff.2 rfl
  have hcut : dropLastBytes dockerfileName.length (directory.toList ++ "Dockerfile".toList) =
      directory.toList := dropLastBytes_append directory.toList "Dockerfile".toList
  rw [parseTrimmed, hbuiltin]
  simp only [hdocker, hends, if_true, hfile, hcut, String.ofList_toList]

/-- A directory is read from what is shown of it, whatever it was read from first. -/
theorem parse_display_dockerfile (directory : String) :
    parse (ProviderRef.dockerfile directory).display = .ok (.dockerfile directory) := by
  have htext : (ProviderRef.dockerfile directory).display.toList = fileText directory := by
    rw [display, String.toList_append, String.toList_append, List.append_assoc]
    rfl
  rw [parse, htext, trim_fileText, parseTrimmed_fileText]

/-- A reference that says what it was read from is read from what is shown of it, images apart:
their credentials are not shown. -/
theorem parse_display (h : parseTrimmed s = .ok r) (htrim : Text.trim s = s)
    (hr : ∀ ref, r ≠ .image ref) : parse r.display = .ok r := by
  rcases isSpelled_or_isFile_of_parseTrimmed h with ⟨hfile, hspelled⟩ | ⟨directory, _, _, rfl, -⟩
  · have htext : r.display.toList = s := by
      cases r with
      | builtin name => rw [display, String.toList_append, hspelled]
      | image ref => exact (hr ref rfl).elim
      | dockerfile directory => exact (hfile directory rfl).elim
      | custom builder path =>
        rw [display, String.toList_append, String.toList_append, hspelled, List.append_assoc]
        rfl
    rw [parse, htext, htrim, h]
  · exact parse_display_dockerfile directory

/-- What is read says what it was read from, with the blanks around it trimmed off, except where a
Kelvin sign stands for the `k` in the name of a Dockerfile.  The name is cut off between
characters, and what is shown of a reference that is no image is read as the same reference. -/
theorem isSpelled_iff_of_parse {text : String} (h : parse text = .ok r) :
    (r.IsSpelled (Text.trim text.toList) ↔ ∀ directory, r = .dockerfile directory →
      Text.kelvinSign ∉ (Text.trim text.toList).rtake dockerfileName.length) ∧
    (∀ directory, r = .dockerfile directory →
      ∃ cut, Text.trim text.toList = "file:".toList ++ (directory.toList ++ cut) ∧
        Utf8.size cut = dockerfileName.length) ∧
    ((∀ ref, r ≠ .image ref) → parse r.display = .ok r) := by
  refine ⟨?_, ?_, parse_display h (Text.trim_trim text.toList)⟩
  · rcases isSpelled_or_isFile_of_parseTrimmed h with ⟨hfile, hspelled⟩ | ⟨directory, _, _, rfl, hfile⟩
    · exact iff_of_true hspelled fun directory hr => (hfile directory hr).elim
    · rw [hfile.isSpelled_iff]
      exact ⟨fun hname _ _ => hname, fun hname => hname directory rfl⟩
  · rintro directory rfl
    rcases isSpelled_or_isFile_of_parseTrimmed h with ⟨hfile, -⟩ | ⟨directory', _, _, hr, hfile⟩
    · exact (hfile directory rfl).elim
    · obtain rfl := ProviderRef.dockerfile.inj hr
      exact hfile.exists_cut

/-- A directory in letters of either case, with blanks around it. -/
theorem isSpelled_iff_of_parse_padded :
    parse " file:steps/DOCKERfile\n" = .ok (.dockerfile "steps/") ∧
      (ProviderRef.dockerfile "steps/").IsSpelled (Text.trim " file:steps/DOCKERfile\n".toList) ∧
      parse (ProviderRef.dockerfile "steps/").display = .ok (.dockerfile "steps/") := by
  have hparse : parse " file:steps/DOCKERfile\n" = .ok (.dockerfile "steps/") := rfl
  obtain ⟨hspelled, -, hdisplay⟩ := isSpelled_iff_of_parse hparse
  exact ⟨hparse, hspelled.2 fun _ _ => by decide, hdisplay nofun⟩

/-- With a Kelvin sign two characters of the name are left in the directory. -/
theorem not_isSpelled_of_kelvinSign :
    ¬ ∀ (text : String) (directory : String), parse text = .ok (.dockerfile directory) →
      (ProviderRef.dockerfile directory).IsSpelled (Text.trim text.toList) := by
  intro h
  have hparse : parse "file:doc\u212aerfile" = .ok (.dockerfile "do") := rfl
  obtain ⟨file, hfile, htext⟩ := h _ _ hparse
  have hlength : file.length = 10 := by
    have hlengths := congrArg List.length hfile
    rwa [List.length_map] at hlengths
  have htrim : (Text.trim "file:doc\u212aerfile".toList).length = 15 := by decide
  rw [htext, List.length_append, List.length_append, hlength] at htrim
  exact absurd htrim (by decide)

end ProviderRef

end PipelineEngine
