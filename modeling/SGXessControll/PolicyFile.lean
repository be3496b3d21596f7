import SGXessControll.Sockets
import SGXessControll.System

/-!
# The policy file of the Admin tool

`main` of the Admin tool reads its file line by line and writes a line break behind each line,
also behind a last one that had none. The manager of the Controller compares what is behind the
separator with `allow`, so what the tool writes, handed on as it is, allows nothing.
-/

namespace SGXess.Admin

set_option autoImplicit false

def newline : UInt8 := 10

/-- `std::getline`: the line and the rest of the file. It fails if nothing is left to extract; a
file that is not there has nothing. -/
def getline (openFile : Str) : Option (Str × Str) :=
  if openFile = [] then none
  else some (openFile.takeWhile (· ≠ newline), (openFile.dropWhile (· ≠ newline)).drop 1)

theorem getline_eq_none {openFile : Str} : getline openFile = none ↔ openFile = [] := by
  unfold getline
  split <;> simp [*]

/-- A line ends at its line break or at the end of the file. -/
theorem getline_eq_some {openFile line rest : Str} (h : getline openFile = some (line, rest)) :
    newline ∉ line ∧
      (openFile = line ++ newline :: rest ∨ openFile = line ∧ line ≠ [] ∧ rest = []) := by
  unfold getline at h
  split at h
  · cases h
  · rename_i hne
    cases h
    have hline : newline ∉ openFile.takeWhile (· ≠ newline) := by
      intro hmem
      simpa using List.mem_takeWhile_imp hmem
    refine ⟨hline, ?_⟩
    have hsplit := List.takeWhile_append_dropWhile (p := (· ≠ newline)) (l := openFile)
    rcases hdrop : openFile.dropWhile (· ≠ newline) with _ | ⟨b, rest⟩
    · right
      rw [hdrop, List.append_nil] at hsplit
      exact ⟨hsplit.symm, fun hnil => hne (hsplit.symm.trans hnil), rfl⟩
    · left
      have hne : openFile.dropWhile (· ≠ newline) ≠ [] := by
        rw [hdrop]
        exact List.cons_ne_nil _ _
      have hb : b = newline := by
        have hfirst := List.head_dropWhile_not (· ≠ newline) hne
        simp only [hdrop, List.head_cons] at hfirst
        simpa using hfirst
      rw [hdrop, hb] at hsplit
      exact hsplit.symm

theorem getline_lt {openFile line rest : Str} (h : getline openFile = some (line, rest)) :
    rest.length < openFile.length := by
  rcases (getline_eq_some h).2 with heq | ⟨heq, hne, hrest⟩
  · rw [heq, List.length_append, List.length_cons]
    omega
  · rw [heq, hrest]
    exact List.length_pos_of_ne_nil hne

/-- The loop of `main`. -/
def readPolicy (openFile policy : Str) : Str :=
  match h : getline openFile with
  | none => policy
  | some (line, rest) =>
    have := getline_lt h
    readPolicy rest (policy ++ line ++ [newline])
termination_by openFile.length

/-- The text with a line break at its end. -/
def terminated (s : Str) : Str :=
  if s = [] ∨ s.getLast? = some newline then s else s ++ [newline]

theorem terminated_line {line rest : Str} :
    terminated (line ++ newline :: rest) = line ++ newline :: terminated rest := by
  cases rest with
  | nil => simp [terminated]
  | cons b rest =>
    have hlast : (line ++ newline :: b :: rest).getLast? = (b :: rest).getLast? := by
      rw [List.getLast?_append, List.getLast?_cons_cons]
      cases h : (b :: rest).getLast? with
      | none => simp at h
      | some c => rfl
    unfold terminated
    rw [hlast]
    split <;> rename_i h <;> simp_all

theorem terminated_last {line : Str} (hline : newline ∉ line) (hne : line ≠ []) :
    terminated line = line ++ [newline] := by
  refine if_neg ?_
  rintro (hnil | hlast)
  · exact hne hnil
  · exact hline (List.mem_of_getLast? hlast)

theorem readPolicy_eq (openFile policy : Str) :
    readPolicy openFile policy = policy ++ terminated openFile := by
  induction openFile, policy using readPolicy.induct with
  | case1 openFile policy h =>
    have hnil := getline_eq_none.mp h
    rw [readPolicy, hnil]
    exact (List.append_nil policy).symm
  | case2 openFile policy line rest h _ ih =>
    have hstep : readPolicy openFile policy = readPolicy rest (policy ++ line ++ [newline]) := by
      rw [readPolicy]
      split <;> simp_all
    rw [hstep, ih]
    obtain ⟨hline, heq | ⟨heq, hne, hrest⟩⟩ := getline_eq_some h
    · rw [heq, terminated_line]
      simp
    · rw [heq, hrest, terminated_last hline hne]
      simp [terminated]

section Effect

open Controller.PolicyManager

/-- A policy that allows something ends in `w`. -/
theorem allows_terminated {s : Str} (hs : s.length + 1 < npos) : allows (terminated s) = false := by
  have hlast : terminated s = [] ∨ (terminated s).getLast? = some newline := by
    unfold terminated
    split
    · assumption
    · exact .inr List.getLast?_concat
  have hlen : (terminated s).length < npos := by
    unfold terminated
    split
    · omega
    · rw [List.length_append]
      exact hs
  by_contra hallows
  rw [Bool.not_eq_false] at hallows
  have hend : (terminated s).getLast? = some 0x77 := by
    rcases explicit_or_bare (s := ⟨terminated s, hlen⟩) hallows with ⟨hexplicit, _⟩ | hbare
    · change terminated s = _ at hexplicit
      rw [hexplicit, List.getLast?_append]
      rfl
    · rw [show terminated s = bareAllow.val from congrArg Subtype.val hbare]
      rfl
  rcases hlast with hnil | hnewline
  · rw [hnil] at hend
    cases hend
  · rw [hnewline] at hend
    exact absurd hend (by decide)

theorem not_allowed_by_files {files : List Str} (hfiles : ∀ f ∈ files, f.length + 1 < npos)
    {m : PolicyMap} {IP : Str} (hm : m IP ≠ some true) :
    (files.map terminated).foldl updatePolicy m IP ≠ some true := by
  induction files generalizing m with
  | nil => exact hm
  | cons f files ih =>
    have hallows := allows_terminated (hfiles f List.mem_cons_self)
    exact ih (fun g hg => hfiles g (List.mem_cons_of_mem _ hg))
      (System.updatePolicy_ne_allow hm hallows)

end Effect

open Calls (Code)
open Sockets (Sock SocketCall on connectTo destroyConnection)
open Sockets.Admin.PolicyDeployer (deployPolicy)

def main (order : Bytes.ByteOrder) (openFile : Str) : Sock Int := do
  let policy := readPolicy openFile []
  let _ ← deployPolicy order policy (text "127.0.0.1") 30005
  return 0

/-- What `send` writes for a policy. -/
def Writes (order : Bytes.ByteOrder) (policy : Str) (c : SocketCall) : Prop :=
  ∀ fd buf, c = .send fd buf → buf = order.encode sizeofSizeT policy.length ∨ buf = policy

theorem only_main (order : Bytes.ByteOrder) (openFile : Str) :
    (main order openFile).Only (Writes order (terminated openFile)) True := by
  have hquiet : ∀ c : SocketCall, (∀ fd buf, c ≠ .send fd buf) →
      (Sockets.int c).Only (Writes order (terminated openFile)) True := by
    intro c hc
    exact (Code.only_ask fun fd buf h => absurd h (hc fd buf)).bind fun _ => trivial
  have hdestroy : ∀ conn,
      (destroyConnection conn).Only (Writes order (terminated openFile)) True := by
    intro conn
    refine Code.only_ite ?_ trivial
    exact (Code.only_ask fun fd buf h => by cases h).bind fun _ => trivial
  have hconnection : ∀ IP port,
      (connectTo IP port).Only (Writes order (terminated openFile)) True := by
    intro IP port
    refine (hquiet _ (fun _ _ h => by cases h)).bind fun conn =>
      (hquiet _ (fun _ _ h => by cases h)).bind fun ret => ?_
    exact Code.only_ite ((hdestroy conn).bind fun _ => trivial) trivial
  have hsend : (SocketUtil.send order (terminated openFile)).Only
      (fun c => c = .send (order.encode sizeofSizeT (terminated openFile).length) ∨
        c = .send (terminated openFile)) True :=
    (only_int (.inl rfl)).bind fun _ => Code.only_ite trivial
      ((only_int (.inr rfl)).bind fun _ => Code.only_ite trivial trivial)
  have hon : ∀ conn, ((SocketUtil.send order (terminated openFile)).embed (on conn)).Only
      (Writes order (terminated openFile)) True := by
    intro conn
    refine hsend.expand (fun _ => rfl) ?_
    rintro c (rfl | rfl)
    · exact Code.only_ask fun fd buf h => by cases h; exact .inl rfl
    · exact Code.only_ask fun fd buf h => by cases h; exact .inr rfl
  have hread : readPolicy openFile [] = terminated openFile := readPolicy_eq openFile []
  rw [main, hread]
  refine Code.Only.bind ?_ fun _ => trivial
  refine (hconnection _ _).bind fun conn => Code.only_ite trivial ((hon conn).bind fun sent => ?_)
  exact Code.only_ite trivial ((hdestroy conn).bind fun _ => trivial)

open Controller.PolicyManager (updatePolicy npos)

/-- All that `main` writes to the Deployer is a length and the text of the file with a line break
at its end. Handed to `updatePolicy` as they are written, no number of such texts makes a map
allow an address that it did not allow before. -/
theorem files_allow_nothing (order : Bytes.ByteOrder) {files : List Str}
    (hfiles : ∀ f ∈ files, f.length + 1 < npos) :
    (∀ f ∈ files, (main order f).Makes (Writes order (terminated f))) ∧
      ∀ m IP, m IP ≠ some true → (files.map terminated).foldl updatePolicy m IP ≠ some true :=
  ⟨fun f _ => (only_main order f).makes, fun _ _ hm => not_allowed_by_files hfiles hm⟩

/-- The text of the file alone would have allowed the address. -/
theorem files_allow_nothing_allow :
    (updatePolicy (fun _ => none) (text "10.0.0.1|allow")) (text "10.0.0.1") = some true ∧
      updatePolicy (fun _ => none) (terminated (text "10.0.0.1|allow")) (text "10.0.0.1") ≠
        some true := by
  have hfiles : ∀ f ∈ [text "10.0.0.1|allow"], f.length + 1 < npos := by
    intro f hf
    rw [List.mem_singleton] at hf
    rw [hf]
    decide
  exact ⟨by decide, (files_allow_nothing .little hfiles).2 (fun _ => none)
    (text "10.0.0.1") nofun⟩

end SGXess.Admin
