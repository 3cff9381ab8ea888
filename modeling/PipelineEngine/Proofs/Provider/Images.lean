import Mathlib.Data.Option.Basic
import PipelineEngine.Proofs.Text.Trimmed
import PipelineEngine.Provider.Reference

/-!
# Image references and their texts

A reference is written `[user:password@]image[:tag]`, and reading finds the parts again by their
marks alone: the first `@`, the first colon before it and the colon behind the last slash.  So a
part can be left out only where what stands instead has no such mark.

* `ImageRef.splitCredentials_eq_some_iff` and `ImageRef.splitTag_eq_iff`: what is split off is
  what was written in front of the image and behind it.
* `ImageRef.parse_eq_ok_iff` is the main statement: the texts that are read are those of the
  references that can be told apart from others, and each is read as its reference.
-/

namespace PipelineEngine

variable {s : List Char}

/-! ## The parts of a reference -/

/-- Credentials that can be written: the user name ends at the first colon, the password at the
first `@`. -/
structure Credentials.IsSound (c : Credentials) : Prop where
  username_ne : c.username ≠ ""
  colon_notMem : ':' ∉ c.username.toList
  at_notMem : '@' ∉ c.username.toList
  password_ne : c.password ≠ ""
  at_notMem_password : '@' ∉ c.password.toList

namespace ImageRef

/-- The parts of a reference that can be written. -/
structure IsSound (r : ImageRef) : Prop where
  credentials : ∀ c ∈ r.credentials, c.IsSound
  image_ne : r.image ≠ ""
  tag_ne : ∀ t ∈ r.tag, t ≠ ""
  slash_notMem : ∀ t ∈ r.tag, '/' ∉ t.toList
  colon_notMem : ∀ t ∈ r.tag, ':' ∉ t.toList

/-- No colon stands behind the last slash. -/
def HasNoTag (s : List Char) : Prop :=
  ∀ before after, s = before ++ ':' :: after → '/' ∈ after

/-- Nothing is taken for a part that is left out. -/
structure IsDistinct (r : ImageRef) : Prop where
  image_at : r.credentials = none → '@' ∉ r.image.toList
  tag_at : r.credentials = none → ∀ t ∈ r.tag, '@' ∉ t.toList
  image_colon : r.tag = none → HasNoTag r.image.toList

/-- What is written of credentials. -/
def credentialsText : Option Credentials → List Char
  | some c => c.username.toList ++ ':' :: (c.password.toList ++ ['@'])
  | none => []

/-- What is written of a tag. -/
def tagText : Option (List Char) → List Char
  | some t => ':' :: t
  | none => []

theorem toList_text (r : ImageRef) :
    r.text.toList =
      credentialsText r.credentials ++ (r.image.toList ++ tagText (r.tag.map String.toList)) := by
  obtain ⟨credentials, image, tag⟩ := r
  cases credentials <;> cases tag <;> simp [text, credentialsText, tagText]

/-! ## Tags -/

/-- A text ends with a tag or has none. -/
theorem exists_tag_or_hasNoTag (s : List Char) :
    (∃ image t, s = image ++ ':' :: t ∧ '/' ∉ t ∧ ':' ∉ t) ∨ HasNoTag s := by
  by_cases h : HasNoTag s
  · exact .inr h
  · simp only [HasNoTag, not_forall] at h
    obtain ⟨before, after, hs, hslash⟩ := h
    obtain ⟨front, t, hlast, hcolon⟩ := Text.exists_last_of_mem (show ':' ∈ ':' :: after by simp)
    refine .inl ⟨before ++ front, t, by rw [hs, hlast, List.append_assoc], ?_, hcolon⟩
    intro ht
    have hmem : '/' ∈ ':' :: after := by simp [hlast, ht]
    exact hslash (by simpa using hmem)

theorem splitTag_append {image t : List Char} (hslash : '/' ∉ t) (hcolon : ':' ∉ t) :
    splitTag (image ++ ':' :: t) = (image, some t) := by
  by_cases h : '/' ∈ image
  · obtain ⟨directory, name, rfl, hname⟩ := Text.exists_last_of_mem h
    have hbehind : '/' ∉ name ++ ':' :: t := by simp [hname, hslash]
    rw [splitTag, List.append_assoc, List.cons_append, Text.cutLast?_append_cons hbehind]
    simp only [Text.cutLast?_append_cons hcolon]
  · have hnone : '/' ∉ image ++ ':' :: t := by simp [h, hslash]
    rw [splitTag, Text.cutLast?_eq_none hnone]
    simp only [Text.cutLast?_append_cons hcolon]

theorem splitTag_eq_self (h : HasNoTag s) : splitTag s = (s, none) := by
  by_cases hslash : '/' ∈ s
  · obtain ⟨directory, name, rfl, hname⟩ := Text.exists_last_of_mem hslash
    have hcolon : ':' ∉ name := by
      intro hmem
      obtain ⟨before, after, rfl⟩ := List.append_of_mem hmem
      have hbehind := h (directory ++ '/' :: before) after (by simp)
      exact hname (by simp [hbehind])
    rw [splitTag, Text.cutLast?_append_cons hname]
    simp only [Text.cutLast?_eq_none hcolon]
  · have hcolon : ':' ∉ s := by
      intro hmem
      obtain ⟨before, after, rfl⟩ := List.append_of_mem hmem
      exact hslash (by simp [h before after rfl])
    rw [splitTag, Text.cutLast?_eq_none hslash]
    simp only [Text.cutLast?_eq_none hcolon]

/-- A tag is split off whole, and nothing is where there is none. -/
theorem splitTag_eq_iff {image : List Char} {tag : Option (List Char)} :
    splitTag s = (image, tag) ↔
      s = image ++ tagText tag ∧ (∀ t ∈ tag, '/' ∉ t ∧ ':' ∉ t) ∧ (tag = none → HasNoTag image) := by
  constructor
  · intro hsplit
    rcases exists_tag_or_hasNoTag s with ⟨image', t, rfl, hslash, hcolon⟩ | hnone
    · rw [splitTag_append hslash hcolon] at hsplit
      obtain ⟨rfl, rfl⟩ := Prod.mk.inj hsplit
      exact ⟨rfl, by simpa using ⟨hslash, hcolon⟩, nofun⟩
    · rw [splitTag_eq_self hnone] at hsplit
      obtain ⟨rfl, rfl⟩ := Prod.mk.inj hsplit
      exact ⟨by simp [tagText], by simp, fun _ => hnone⟩
  · rintro ⟨rfl, htag, hnone⟩
    cases tag with
    | none =>
      rw [tagText, List.append_nil]
      exact splitTag_eq_self (hnone rfl)
    | some t => exact splitTag_append (htag t rfl).1 (htag t rfl).2

/-! ## Credentials -/

theorem splitCredentials_append {c : Credentials} (h : c.IsSound) (rest : List Char) :
    splitCredentials (credentialsText (some c) ++ rest) = some (some c, rest) := by
  have hat : '@' ∉ c.username.toList ++ ':' :: c.password.toList := by
    simp [h.at_notMem, h.at_notMem_password]
  have htext : credentialsText (some c) ++ rest =
      (c.username.toList ++ ':' :: c.password.toList) ++ '@' :: rest := by
    simp [credentialsText]
  have huser : c.username.toList.isEmpty = false := by simpa using h.username_ne
  have hpassword : c.password.toList.isEmpty = false := by simpa using h.password_ne
  rw [htext, splitCredentials, Text.cut?_append_cons hat]
  simp only [Text.cut?_append_cons h.colon_notMem, huser, hpassword, Bool.or_self,
    Bool.false_eq_true, if_false, String.ofList_toList]

theorem splitCredentials_eq_self (h : '@' ∉ s) : splitCredentials s = some (none, s) := by
  rw [splitCredentials, Text.cut?_eq_none h]

/-- Credentials are split off whole, and nothing is where there are none. -/
theorem splitCredentials_eq_some_iff {credentials : Option Credentials} {rest : List Char} :
    splitCredentials s = some (credentials, rest) ↔
      s = credentialsText credentials ++ rest ∧ (∀ c ∈ credentials, c.IsSound) ∧
        (credentials = none → '@' ∉ rest) := by
  constructor
  · intro hsplit
    by_cases hat : '@' ∈ s
    · obtain ⟨before, rest', rfl, hbefore⟩ := List.eq_append_cons_of_mem hat
      rw [splitCredentials, Text.cut?_append_cons hbefore] at hsplit
      by_cases hcolon : ':' ∈ before
      · obtain ⟨user, password, rfl, huser⟩ := List.eq_append_cons_of_mem hcolon
        simp only [Text.cut?_append_cons huser, Option.ite_none_left_eq_some, Option.some.injEq,
          Prod.mk.injEq, Bool.not_eq_true, Bool.or_eq_false_iff] at hsplit
        obtain ⟨⟨huserNe, hpasswordNe⟩, rfl, rfl⟩ := hsplit
        simp only [List.mem_append, List.mem_cons, not_or] at hbefore
        refine ⟨by simp [credentialsText], ?_, nofun⟩
        rintro c ⟨⟩
        exact ⟨by simpa using huserNe, by simpa using huser, by simpa using hbefore.1,
          by simpa using hpasswordNe, by simpa using hbefore.2.2⟩
      · simp only [Text.cut?_eq_none hcolon] at hsplit
        cases hsplit
    · rw [splitCredentials_eq_self hat] at hsplit
      obtain ⟨rfl, rfl⟩ := Prod.mk.inj (Option.some.inj hsplit)
      exact ⟨rfl, by simp, fun _ => hat⟩
  · rintro ⟨rfl, hsound, hnone⟩
    cases credentials with
    | none => exact splitCredentials_eq_self (hnone rfl)
    | some c => exact splitCredentials_append (hsound c rfl) rest

/-! ## References -/

variable {text : String} {r : ImageRef}

/-- Reading is splitting twice, where an image is left and the tag is not empty. -/
theorem parse_eq_ok_iff_split :
    parse text = .ok r ↔ ∃ rest, splitCredentials text.toList = some (r.credentials, rest) ∧
      splitTag rest = (r.image.toList, r.tag.map String.toList) ∧ r.image ≠ "" ∧
        ∀ t ∈ r.tag, t ≠ "" := by
  obtain ⟨credentials, image, tag⟩ := r
  constructor
  · intro hparse
    rw [parse] at hparse
    split at hparse
    · cases hparse
    · rename_i credentials' rest hsplit
      rcases hpair : splitTag rest with ⟨image', tag'⟩
      simp only [hpair] at hparse
      split at hparse
      · cases hparse
      · rename_i hparts
        obtain ⟨rfl, rfl, rfl⟩ := ImageRef.mk.inj (Except.ok.inj hparse)
        have hne : image' ≠ [] ∧ tag' ≠ some [] := by simpa using hparts
        refine ⟨rest, hsplit, by cases tag' <;> simp [hpair], by simpa using hne.1, ?_⟩
        cases tag' with
        | none => simp
        | some t => simpa using hne.2
  · rintro ⟨rest, hcredentials, htag, himage, htagNe⟩
    have hparts : ¬ (image.toList.isEmpty || tag.map String.toList == some []) = true := by
      cases tag with
      | none => simpa using himage
      | some t => simpa using And.intro himage (htagNe t rfl)
    rw [parse, hcredentials]
    simp only [htag, if_neg hparts, String.ofList_toList]
    cases tag <;> simp

/-- What is read is written out again as it was, and its parts can be told apart. -/
theorem written_of_parse (h : parse text = .ok r) : text = r.text ∧ r.IsSound ∧ r.IsDistinct := by
  obtain ⟨rest, hcredentials, htag, himageNe, htagNe⟩ := parse_eq_ok_iff_split.1 h
  obtain ⟨htext, hsound, hnoCredentials⟩ := splitCredentials_eq_some_iff.1 hcredentials
  obtain ⟨rfl, hmarks, hnoTag⟩ := splitTag_eq_iff.1 htag
  rw [Option.forall_mem_map] at hmarks
  refine ⟨String.toList_inj.1 (htext.trans (toList_text r).symm),
    ⟨hsound, himageNe, htagNe, fun t ht => (hmarks t ht).1, fun t ht => (hmarks t ht).2⟩,
    fun hnone hmem => hnoCredentials hnone (by simp [hmem]), ?_, ?_⟩
  · rintro hnone t ht hmem
    exact hnoCredentials hnone (by simp [Option.mem_def.1 ht, tagText, hmem])
  · exact fun hnone => hnoTag (by simp [hnone])

/-- A reference whose parts can be told apart is read from its text. -/
theorem parse_text (hsound : r.IsSound) (hdistinct : r.IsDistinct) : parse r.text = .ok r := by
  rw [parse_eq_ok_iff_split]
  refine ⟨r.image.toList ++ tagText (r.tag.map String.toList), ?_, ?_, hsound.image_ne,
    hsound.tag_ne⟩
  · rw [toList_text, splitCredentials_eq_some_iff]
    refine ⟨rfl, hsound.credentials, fun hnone hmem => ?_⟩
    rcases List.mem_append.1 hmem with himage | htag
    · exact hdistinct.image_at hnone himage
    · cases htagOf : r.tag with
      | none => simp [htagOf, tagText] at htag
      | some t => exact hdistinct.tag_at hnone t htagOf (by simpa [htagOf, tagText] using htag)
  · rw [splitTag_eq_iff]
    refine ⟨rfl, ?_, fun hnone => hdistinct.image_colon (Option.map_eq_none_iff.1 hnone)⟩
    rw [Option.forall_mem_map]
    exact fun t ht => ⟨hsound.slash_notMem t ht, hsound.colon_notMem t ht⟩

/-- The texts that are read are those of the references whose parts can be written and told apart,
and each is read as its reference. -/
theorem parse_eq_ok_iff :
    parse text = .ok r ↔ text = r.text ∧ r.IsSound ∧ r.IsDistinct := by
  constructor
  · exact written_of_parse
  · rintro ⟨rfl, hsound, hdistinct⟩
    exact parse_text hsound hdistinct

/-- Without credentials an `@` in the tag is taken for their end. -/
theorem not_parse_text_of_tag_at :
    ¬ ∀ r : ImageRef, r.IsSound → (r.credentials = none → '@' ∉ r.image.toList) →
      (r.tag = none → HasNoTag r.image.toList) → parse r.text = .ok r := by
  intro h
  have hsound : IsSound ⟨none, "a", some "b@c"⟩ :=
    ⟨nofun, by decide, by simp, by simp, by simp⟩
  have hparse := h _ hsound (fun _ => by decide) nofun
  have hread : parse "a:b@c" = .ok ⟨some ⟨"a", "b"⟩, "c", none⟩ := rfl
  cases hread.symm.trans hparse

end ImageRef

end PipelineEngine
