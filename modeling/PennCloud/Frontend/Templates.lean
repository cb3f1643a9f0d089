import PennCloud.Lib.Lines
import PennCloud.Lib.Placeholders
import PennCloud.Text

/-!
# Pages made from templates

`replace_get_html` reads a template line by line and replaces in each line the names
of a map by their values, one name after the other in the order in which the hash map
is iterated. What a name stands for is part of the line when the next name is looked
for. `Page` are the maps that the handlers build, and `rendered_iff` says with which
values every template comes out as if all names had been replaced at once.
-/

namespace PennCloud

open Str

/-- The loop of `replace`; `index` is behind the last replacement. -/
def replaceLoop (target replacement : Str) : Nat → Str → Nat → Option Str
  | 0, _, _ => none
  | fuel + 1, origin, index =>
    match Lib.firstIdx target (origin.drop index) with
    | none => some origin
    | some i => replaceLoop target replacement fuel
        (origin.take (index + i) ++ replacement ++ origin.drop (index + i + target.length))
        (index + i + replacement.length)

/-- Each turn of the loop but the last one uses up a letter of `origin`. -/
def replace (origin target replacement : Str) : Option Str :=
  replaceLoop target replacement (origin.length + 1) origin 0

/-- `replace_get_html` on the text of the file, for one order of the map. -/
def replaceGetHtml (web : Str) (replacement : List (Str × Str)) : Option Str :=
  ((Lib.lines '\n' web).mapM fun line =>
    replacement.foldlM (fun line e => replace line e.1 e.2) line).map List.flatten

/-! ## The maps -/

def kUser : Str := "$user".toList
def kEmail : Str := "$email".toList
def kSubject : Str := "$subject".toList
def kContent : Str := "$content".toList
def kListFiles : Str := "$list_files".toList
def kPath : Str := "$path".toList
def kFolders : Str := "$folders".toList
def kServers : Str := "$servers".toList
def kInbox : Str := "$inbox".toList
def kSent : Str := "$sent".toList
def kTrash : Str := "$trash".toList
def kAction : Str := "$Action".toList
def kSender : Str := "$sender".toList
def kTime : Str := "$time".toList
def kTitle : Str := "$Subject".toList
def kCommandList : Str := "$command-list".toList

/-- All names that handlers use. -/
def pageNames : List Str :=
  [kListFiles, kUser, kPath, kFolders, kEmail, kSubject, kAction, kSender, kTime, kTitle, kContent,
    kCommandList, kInbox, kSent, kTrash, kServers]

/-- A map of some of the names. -/
structure Replacement where
  entries : List (Str × Str)
  names : (entries.map Prod.fst).Sublist pageNames

/-- A page that a handler replies with, and what it puts into it. -/
inductive Page
  /-- A redirection to the admin page. -/
  | plain
  /-- The home page, the upload page, and most answers to a form. -/
  | user (username : Str)
  | newEmail (username : Str)
  | reply (username sender title content : Str)
  | forward (username title content : Str)
  | files (names username curPath : Str)
  | newFolder (names username : Str)
  | move (username folders : Str)
  | admin (serversHtml : Str)
  | email (username inboxEmails sentEmails : Str)
  | showInbox (username sender time title content commandList : Str)
  | showSent (username rcpt time title content commandList : Str)

def Page.replacement : Page → Replacement
  | plain => ⟨[], by decide⟩
  | user username => ⟨[(kUser, username)], (by decide : [kUser].Sublist pageNames)⟩
  | newEmail username => ⟨[(kUser, username), (kEmail, []), (kSubject, []), (kContent, [])],
      (by decide : [kUser, kEmail, kSubject, kContent].Sublist pageNames)⟩
  | reply username sender title content =>
    ⟨[(kUser, username), (kEmail, sender), (kSubject, "Re: ".toList ++ title), (kContent, content)],
      (by decide : [kUser, kEmail, kSubject, kContent].Sublist pageNames)⟩
  | forward username title content =>
    ⟨[(kUser, username), (kEmail, []), (kSubject, "Fwd: ".toList ++ title), (kContent, content)],
      (by decide : [kUser, kEmail, kSubject, kContent].Sublist pageNames)⟩
  | files names username curPath =>
    ⟨[(kListFiles, names), (kUser, username), (kPath, curPath)],
      (by decide : [kListFiles, kUser, kPath].Sublist pageNames)⟩
  | newFolder names username => ⟨[(kListFiles, names), (kUser, username)],
      (by decide : [kListFiles, kUser].Sublist pageNames)⟩
  | move username folders => ⟨[(kUser, username), (kFolders, folders)],
      (by decide : [kUser, kFolders].Sublist pageNames)⟩
  | admin serversHtml => ⟨[(kServers, serversHtml)], (by decide : [kServers].Sublist pageNames)⟩
  | email username inboxEmails sentEmails =>
    ⟨[(kUser, username), (kInbox, inboxEmails), (kSent, sentEmails), (kTrash, [])],
      (by decide : [kUser, kInbox, kSent, kTrash].Sublist pageNames)⟩
  | showInbox username sender time title content commandList =>
    ⟨[(kUser, username), (kAction, "From".toList), (kSender, sender), (kTime, time),
      (kTitle, title), (kContent, content), (kCommandList, commandList)],
      (by decide : [kUser, kAction, kSender, kTime, kTitle, kContent,
        kCommandList].Sublist pageNames)⟩
  | showSent username rcpt time title content commandList =>
    ⟨[(kUser, username), (kAction, "To".toList), (kSender, rcpt), (kTime, time), (kTitle, title),
      (kContent, content), (kCommandList, commandList)],
      (by decide : [kUser, kAction, kSender, kTime, kTitle, kContent,
        kCommandList].Sublist pageNames)⟩

namespace Replacement

/-- A template with all names replaced at once, each value as it is. -/
def fill (m : Replacement) (web : Str) : Str :=
  (Lib.lines '\n' web).flatMap fun line =>
    Lib.put (Lib.valueOf m.entries) (Lib.tokens (m.entries.map Prod.fst) line)

/-- **The page does not depend on the order of the map**, and has the values as they are. -/
def Faithful (m : Replacement) : Prop :=
  ∀ web order, order.Perm m.entries → replaceGetHtml web order = some (m.fill web)

end Replacement

/-! ## Replacing in a line -/

/-- **The loop replaces what is behind `index`** as long as it can be run. -/
theorem replaceLoop_eq {target : Str} (ht : target ≠ []) (replacement : Str) :
    ∀ (fuel : Nat) (pre s : Str), s.length < fuel →
      replaceLoop target replacement fuel (pre ++ s) pre.length
        = some (pre ++ Lib.substitute target replacement s) := by
  intro fuel
  induction fuel with
  | zero => exact fun pre s hs => absurd hs (Nat.not_lt_zero _)
  | succ fuel ih =>
      intro pre s hs
      rw [replaceLoop, List.drop_left]
      by_cases hin : target <:+: s
      · obtain ⟨a, b, rfl, hfirst⟩ := Lib.first_cut hin
        have hpos := List.length_pos_of_ne_nil ht
        have hfuel : b.length < fuel := by
          rw [List.length_append, List.length_append] at hs
          omega
        have htake : (pre ++ (a ++ target ++ b)).take (pre.length + a.length) = pre ++ a := by
          rw [List.append_assoc a, ← List.append_assoc, ← List.length_append, List.take_left]
        have hdrop : (pre ++ (a ++ target ++ b)).drop (pre.length + a.length
          + target.length) = b := by
          rw [← List.append_assoc, ← List.append_assoc, ← List.length_append, ← List.length_append,
            List.drop_left]
        have hrest := ih (pre ++ a ++ replacement) b hfuel
        rw [hfirst, Lib.substitute_found replacement ht hfirst]
        simp only [htake, hdrop]
        rw [List.length_append, List.length_append] at hrest
        rw [hrest]
        simp only [List.append_assoc]
      · rw [Lib.firstIdx_eq_none.mpr hin, Lib.substitute_none replacement hin]

theorem replace_eq {target : Str} (ht : target ≠ []) (origin replacement : Str) :
    replace origin target replacement = some (Lib.substitute target replacement origin) :=
  replaceLoop_eq ht replacement (origin.length + 1) [] origin (Nat.lt_succ_self _)

/--
**`replace` is exact.** There is one way to cut a text at the leftmost occurrences of the
target, and the loop comes to an end with the replacement between the pieces, whatever
the replacement is: what it has put in is behind `index`.
-/
theorem replace_leftmost {target : Str} (ht : target ≠ []) (origin replacement : Str) :
    ∃ pieces, (∀ ps, Lib.LeftmostCuts target origin ps ↔ ps = pieces) ∧
      target.intercalate pieces = origin ∧
      (∀ fuel, origin.length < fuel →
        replaceLoop target replacement fuel origin 0 = some (replacement.intercalate pieces)) ∧
      replace origin target replacement = some (replacement.intercalate pieces) :=
  ⟨Lib.cuts target origin, fun _ => Lib.leftmostCuts_iff ht, Lib.substitute_self ht origin,
    fun fuel hfuel => replaceLoop_eq ht replacement fuel [] origin hfuel,
    replace_eq ht origin replacement⟩

/-- Overlapping occurrences, and a replacement that holds the target. -/
theorem doubled_leftmost : (∃ pieces,
    (∀ ps, Lib.LeftmostCuts ['a', 'a'] ['a', 'a', 'a', 'b', 'a', 'a'] ps ↔ ps = pieces) ∧
      ['a', 'a'].intercalate pieces = ['a', 'a', 'a', 'b', 'a', 'a'] ∧
      (∀ fuel, 6 < fuel → replaceLoop ['a', 'a'] ['c', 'a', 'a'] fuel ['a', 'a', 'a',
        'b', 'a', 'a'] 0
        = some (['c', 'a', 'a'].intercalate pieces)) ∧
      replace ['a', 'a', 'a', 'b', 'a', 'a'] ['a', 'a'] ['c', 'a', 'a']
        = some (['c', 'a', 'a'].intercalate pieces)) ∧
    replace ['a', 'a', 'a', 'b', 'a', 'a'] ['a', 'a'] ['c', 'a', 'a']
      = some ['c', 'a', 'a', 'a', 'b', 'c', 'a', 'a'] :=
  ⟨replace_leftmost (by decide) _ _, by decide⟩

/-- An empty target is found again and again. -/
theorem replaceLoop_empty (replacement : Str) : ∀ (fuel : Nat) (origin : Str) (index : Nat),
    replaceLoop [] replacement fuel origin index = none
  | 0, _, _ => rfl
  | fuel + 1, origin, index => by
      rw [replaceLoop, Lib.firstIdx_zero List.nil_prefix]
      exact replaceLoop_empty replacement fuel _ _

/-- A page is made line by line. -/
theorem replaceGetHtml_eq {order : List (Str × Str)} (h : ∀ e ∈ order, e.1 ≠ []) (web : Str) :
    replaceGetHtml web order
      = some ((Lib.lines '\n' web).flatMap fun line => Lib.substituteAll order line) := by
  have hline : ∀ line, order.foldlM (fun line e => replace line e.1 e.2) line
      = some (Lib.substituteAll order line) := by
    induction order with
    | nil => exact fun line => rfl
    | cons e order ih =>
        intro line
        obtain ⟨he, horder⟩ := List.forall_mem_cons.mp h
        rw [List.foldlM_cons, replace_eq he]
        exact ih horder _
  have hlines : ∀ lines : List Str, (lines.mapM fun line =>
      order.foldlM (fun line e => replace line e.1 e.2) line)
        = some (lines.map (Lib.substituteAll order)) := by
    intro lines
    induction lines with
    | nil => rfl
    | cons line lines ih =>
        rw [List.mapM_cons, hline, ih]
        rfl
  rw [replaceGetHtml, hlines, List.flatMap_def]
  rfl

/-! ## Independent values -/

theorem pageNames_placeholders : Lib.Placeholders '$' pageNames := by decide +kernel

theorem pageNames_oneLine : ∀ k ∈ pageNames, '\n' ∉ k := by decide

namespace Replacement

variable (m : Replacement)

theorem placeholders : Lib.Placeholders '$' (m.entries.map Prod.fst) where
  marked k hk := pageNames_placeholders.marked k (m.names.subset hk)
  apart k hk k' hk' := pageNames_placeholders.apart k (m.names.subset hk) k' (m.names.subset hk')

theorem nodup : (m.entries.map Prod.fst).Nodup := m.names.nodup (by decide)

theorem name_ne_nil {order : List (Str × Str)} (hperm : order.Perm m.entries) :
    ∀ e ∈ order, e.1 ≠ [] := fun _ he =>
  m.placeholders.ne_nil (List.mem_map_of_mem (f := Prod.fst) (hperm.mem_iff.mp he))

/--
**A template is filled in faithfully** if on each of its lines the values of the names
that are there meet no others.
-/
theorem replaceGetHtml_of_lines {web : Str} (h : ∀ line ∈ Lib.lines '\n' web, ∀ e ∈ m.entries,
      .key e.1 ∈ Lib.tokens (m.entries.map Prod.fst) line → ∀ f ∈ m.entries, e ≠ f →
        f.2 = f.1 ∨ ¬ Lib.Meets e.2 f.1)
    {order : List (Str × Str)} (hperm : order.Perm m.entries) :
    replaceGetHtml web order = some (m.fill web) := by
  rw [replaceGetHtml_eq (m.name_ne_nil hperm), fill]
  congr 1
  exact List.flatMap_congr fun line hline =>
    Lib.substituteAll_eq m.placeholders m.nodup (h line hline) hperm

/-- **Every template is filled in faithfully** exactly if the values are independent. -/
theorem faithful_iff : m.Faithful ↔ Lib.Independent m.entries := by
  constructor
  · intro h e he f hf hne
    by_contra hnot
    rw [not_or, not_not] at hnot
    obtain ⟨x, y, order, hx, hy, hperm, hdiffers⟩ :=
      Lib.not_filled m.placeholders m.nodup he hf hne hnot.1 hnot.2
    have hname : ∀ g ∈ m.entries, '\n' ∉ g.1 := fun g hg =>
      pageNames_oneLine _ (m.names.subset (List.mem_map_of_mem (f := Prod.fst) hg))
    have hline : '\n' ∉ x ++ e.1 ++ y := by
      rw [List.mem_append, List.mem_append, not_or, not_or]
      exact ⟨⟨fun hmem => hname f hf (hx.subset hmem), hname e he⟩,
        fun hmem => hname f hf (hy.subset hmem)⟩
    have hweb : Lib.lines '\n' (x ++ e.1 ++ y ++ ['\n']) = [x ++ e.1 ++ y] :=
      Lib.lines_line [] hline
    have hpage := (replaceGetHtml_eq (m.name_ne_nil hperm) _).symm.trans
      (h (x ++ e.1 ++ y ++ ['\n']) order hperm)
    rw [fill, hweb, List.flatMap_singleton, List.flatMap_singleton] at hpage
    exact hdiffers (Option.some.inj hpage)
  · exact fun hind web order hperm =>
      m.replaceGetHtml_of_lines (fun _ _ e he _ => hind e he) hperm

end Replacement

/--
**The pages of the handlers** come out of every template the same in every order,
with the values as they are, exactly if no value can make up the name of another one
that stands for something else.
-/
theorem rendered_iff (p : Page) : p.replacement.Faithful ↔ Lib.Independent p.replacement.entries :=
  p.replacement.faithful_iff

/-- A mail with the name of another field as its subject, and the line the subject is shown in. -/
def namingMail : Page :=
  .showInbox "bob".toList "amy@localhost".toList [] "$content".toList "hello".toList []

def subjectLine : Str := "      <h4 style=\"margin-top: 10px;\">$Subject</h4>\n".toList

/-- It is shown as it is, or with the text of the mail in its place. -/
theorem namingMail_differs : ¬ namingMail.replacement.Faithful := by
  intro h
  have hforth := h subjectLine _ (List.Perm.refl _)
  have hback := h subjectLine _ (List.reverse_perm _)
  have hsame := hforth.trans hback.symm
  revert hsame
  decide +kernel

end PennCloud
