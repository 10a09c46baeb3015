import MatchTrader.EnvFile

/-! The first start: the launcher asks for the settings that its file has not, and writes them into it. -/

namespace EnvFile

structure Item where
  key : Text
  prompt : Text
  default : Text
  secret : Bool

def required : List Item := [
  ⟨"AQF_PLATFORM_URL".toList, "Match-Trader terminal URL".toList, "https://platform.aquafunded.com".toList, false⟩,
  ⟨"AQF_EMAIL".toList, "Broker login email".toList, [], false⟩,
  ⟨"AQF_PASSWORD".toList, "Broker login password".toList, [], true⟩]

def optional : List Item := [
  ⟨"AQF_BROKER_ID".toList, "Broker ID (blank to discover it at login)".toList, [], false⟩,
  ⟨"AQF_R01_LEDGER".toList, "R01 ledger CSV path (blank to skip R01 observation)".toList, "C:/HCAMM/trials/R01_TRADES.csv".toList, false⟩]

def bridgeToken : Text := "AQF_BRIDGE_TOKEN".toList

/-- What appears on the console. The answer to a secret question does not. -/
inductive Shown where
  | out (line : Text)
  | ask (prompt : Text)
  | askSecret (prompt : Text)

def suffix (i : Item) : Text := if i.default = [] then [] else " [".toList ++ i.default ++ "]".toList

/-- An empty answer takes the default. -/
def answerOf (i : Item) (line : Text) : Text := if MatchTrader.strip line = [] then i.default else MatchTrader.strip line

/-- What was asked for, what was shown for it, and the answers that are left. -/
structure Asked (α : Type) where
  value : α
  shown : List Shown
  rest : List Text

/-- One item after the other. -/
def collect (f : Item → List Text → Option (Asked Text)) : List Item → List Text → Option (Asked (List (Text × Text)))
  | [], answers => some ⟨[], [], answers⟩
  | i :: items, answers =>
    (f i answers).bind fun r => (collect f items r.rest).map fun more => ⟨(i.key, r.value) :: more.value, r.shown ++ more.shown, more.rest⟩

def lacksValue (values : List (Text × Text)) (key : Text) : Bool := (valueIn values key).getD [] = []

def missing (values : List (Text × Text)) : List Item := required.filter fun i => lacksValue values i.key

def saved (path : Text) (keys : List Text) : List Shown :=
  if keys = [] then []
  else [.out ("  Saved ".toList ++ ", ".toList.intercalate keys ++ " to ".toList ++ path ++ ".".toList)]

section Answers

variable {i : Item} {items : List Item} {line : Text} {answers others : List Text} {f : Item → List Text → Option (Asked Text)}

/-- The answers that are left are as good as all of them were, and so is the one that was taken. -/
def Takes (f : Item → List Text → Option (Asked Text)) : Prop :=
  ∀ i answers r, PlainValue i.default → (∀ a ∈ answers, Unbroken a) → f i answers = some r → PlainValue r.value ∧ ∀ a ∈ r.rest, Unbroken a

/-- Of the answers, only whether they are blank. -/
def Alike (answers others : List Text) : Prop := List.Forall₂ (fun a b => MatchTrader.strip a = [] ↔ MatchTrader.strip b = []) answers others

end Answers

section Starts

variable {crlf : Bool} {path token : Text} {file : Option Text} {answers : List Text} {done : Setup} {values : List (Text × Text)}

/-- The default, an address after a blank line, a password, and two blank lines. -/
def sampleAnswers : List Text := [[], [], "a@b".toList, " pw ".toList, [], []]

end Starts

end EnvFile
