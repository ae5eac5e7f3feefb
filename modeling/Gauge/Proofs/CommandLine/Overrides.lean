import Gauge.Proofs.CommandLine.Arguments
import Gauge.Proofs.Numeral.Denotation
import Gauge.Proofs.Text.Blank

/-!
Globals that the command line overrides. The first equals sign cuts a name from a number, white space around
either does not count, and nothing is taken but a name and a text that stands for a number. A number that is
written as it is shown comes back as itself.
-/

namespace Gauge.CommandLine

open Literal (Denotes)

theorem splitEquals?_eq_some_iff {s left right : List Char} :
    splitEquals? s = some (left, right) ↔ s = left ++ '=' :: right ∧ '=' ∉ left := by
  constructor
  · intro h
    have hs := List.takeWhile_append_dropWhile (p := (· != '=')) (l := s)
    have hleft : ∀ c ∈ s.takeWhile (· != '='), (c != '=') = true :=
      List.all_eq_true.mp List.all_takeWhile
    have hhead := List.head?_dropWhile_not (· != '=') s
    simp only [splitEquals?] at h
    generalize s.takeWhile (· != '=') = front at h hs hleft
    generalize s.dropWhile (· != '=') = back at h hs hhead
    subst hs
    cases back with
    | nil => cases h
    | cons c back =>
        obtain ⟨rfl, rfl⟩ := Prod.mk.inj (Option.some.inj h)
        obtain rfl : c = '=' := by simpa using hhead
        exact ⟨rfl, fun hmem => by simpa using hleft '=' hmem⟩
  · rintro ⟨rfl, hleft⟩
    exact Progress.splitEquals?_append hleft right

theorem trimmed_eq_iff {s : List Char} {t : String} :
    trimmed s = t ↔ Text.Trims (String.ofList s) t := by
  rw [← Text.trim_eq_iff, trimmed, Text.trim, String.toList_ofList]

theorem trims_of_trimmed (s : List Char) : Text.Trims (String.ofList s) (trimmed s) :=
  trimmed_eq_iff.mp rfl

theorem readOverride_eq_ok_iff {s name : String} {x : Float} :
    readOverride s = .ok (name, x) ↔
      ∃ left right number : String, s = left ++ "=" ++ right ∧ '=' ∉ left.toList ∧
        Text.Trims left name ∧ name ≠ "" ∧ Text.Trims right number ∧ Denotes number x := by
  constructor
  · intro h
    simp only [readOverride] at h
    split at h
    · cases h
    · rename_i left right hsplit
      obtain ⟨hs, hleft⟩ := splitEquals?_eq_some_iff.mp hsplit
      split at h
      · cases h
      · rename_i hne
        split at h
        · rename_i y hy
          obtain ⟨rfl, rfl⟩ := Prod.mk.inj (Except.ok.inj h)
          refine ⟨String.ofList left, String.ofList right, trimmed right, ?_, ?_, trims_of_trimmed left,
            by simpa using hne, trims_of_trimmed right, Literal.read_eq_ok_iff.mp hy⟩
          · rw [← String.toList_inj, hs]
            simp
          · rwa [String.toList_ofList]
        · cases h
  · rintro ⟨left, right, number, rfl, hleft, hname, hne, hnumber, hx⟩
    have hsplit : splitEquals? (left ++ "=" ++ right).toList = some (left.toList, right.toList) :=
      splitEquals?_eq_some_iff.mpr ⟨by simp, hleft⟩
    have hname' : trimmed left.toList = name := by rwa [trimmed_eq_iff, String.ofList_toList]
    have hnumber' : trimmed right.toList = number := by rwa [trimmed_eq_iff, String.ofList_toList]
    have hne' : (name == "") = false := beq_eq_false_iff_ne.mpr hne
    simp only [readOverride, hsplit, hname', hne', hnumber', Literal.read_eq_ok_iff.mpr hx]
    rfl

/-! Numbers as they are shown. -/

theorem isBare_write_plain (x : Float) : Text.IsBare (NumeralStyle.plain.write x) :=
  Text.isBare_of_forall (NumeralStyle.isBlank_of_mem_plain x)

theorem denotes_write_plain (x : Float) : Denotes (NumeralStyle.plain.write x) x :=
  Literal.read_eq_ok_iff.mp (NumeralStyle.read_write_plain x)

/-- An override is read as a name and a number exactly if the name stands before the first equals sign and a
text for the number behind it, white space around them aside. So no name has an equals sign in it or white
space at its ends, and every other name but the empty one is read before every number as it is shown. -/
theorem overrides_read_exactly (name : String) (x : Float) :
    (∀ s, readOverride s = .ok (name, x) ↔
      ∃ left right number : String, s = left ++ "=" ++ right ∧ '=' ∉ left.toList ∧
        Text.Trims left name ∧ name ≠ "" ∧ Text.Trims right number ∧ Denotes number x) ∧
      (∀ s, readOverride s = .ok (name, x) → '=' ∉ name.toList ∧ Text.IsBare name) ∧
      (name ≠ "" → '=' ∉ name.toList → Text.IsBare name →
        ∀ before after, Text.isBlankText before = true → Text.isBlankText after = true →
          readOverride (name ++ before ++ "=" ++ after ++ NumeralStyle.plain.write x) =
            .ok (name, x)) := by
  refine ⟨fun s => readOverride_eq_ok_iff, fun s h => ?_, fun hne hequals bare before after hb ha => ?_⟩
  · obtain ⟨left, right, number, rfl, hleft, hname, -⟩ := readOverride_eq_ok_iff.mp h
    exact ⟨fun hmem => hleft (hname.mem_of_mem hmem), hname.bare⟩
  · refine readOverride_eq_ok_iff.mpr ⟨name ++ before, after ++ NumeralStyle.plain.write x,
      NumeralStyle.plain.write x, ?_, ?_, .behind bare hb, hne, .before (isBare_write_plain x) ha,
      denotes_write_plain x⟩
    · simp only [String.append_assoc]
    · rw [String.toList_append, List.mem_append]
      rintro (hmem | hmem)
      · exact hequals hmem
      · exact absurd (Text.isBlankText_iff.mp hb '=' hmem) (by decide)

theorem overrides_read_exactly_spaced :
    ("warn level" ≠ "" ∧ '=' ∉ "warn level".toList ∧ Text.IsBare "warn level") ∧
      NumeralStyle.plain.write 0.1 = "0.1" ∧ readOverride "warn level \t=\u3000 0.1" = .ok ("warn level", 0.1) := by
  have bare : Text.IsBare "warn level" := ⟨by simp [Text.isBlank], by simp [Text.isBlank]⟩
  have shown : NumeralStyle.plain.write 0.1 = "0.1" := by decide +kernel
  have nonempty : "warn level" ≠ "" := by decide
  have noEquals : '=' ∉ "warn level".toList := by decide
  have read := (overrides_read_exactly "warn level" 0.1).2.2 nonempty noEquals bare " \t" "\u3000 "
    (by decide) (by decide)
  rw [shown] at read
  exact ⟨⟨nonempty, noEquals, bare⟩, shown, read⟩

example : readOverride "limit=1=2" = .error (.noNumber "limit" .malformed) := by decide +kernel

end Gauge.CommandLine
