import SyntheticRows.Literal
import SyntheticRows.Vocabulary

/-!
Trading positions: the labels that classify a position, and the record of one. The fields of a position
are independent draws, so its prices, margins and valuations need not agree with each other.
-/

namespace SyntheticRows

/-! ### Labels -/

/-- The account on which a position is booked. -/
inductive Account
  | one
  | two
  | three
deriving DecidableEq, Repr

/-- Whether a position gains with a rising or with a falling price. -/
inductive Direction
  | long
  | short
deriving DecidableEq, Repr

/-- The stage of the order behind a position. -/
inductive OrderStage
  | pending
  | settled
  | filled
deriving DecidableEq, Repr

/-- How the order behind a position is priced. -/
inductive OrderPricing
  | limit
  | market
deriving DecidableEq, Repr

instance : Vocabulary Account where
  kind := "account"
  all := [.one, .two, .three]
  label
    | .one => "one"
    | .two => "two"
    | .three => "three"

instance : Vocabulary Direction where
  kind := "position_type"
  all := [.long, .short]
  label
    | .long => "LONG"
    | .short => "SHORT"

instance : Vocabulary OrderStage where
  kind := "order_status"
  all := [.pending, .settled, .filled]
  label
    | .pending => "PENDING"
    | .settled => "SETTLED"
    | .filled => "FILLED"

instance : Vocabulary OrderPricing where
  kind := "order_type"
  all := [.limit, .market]
  label
    | .limit => "LIMIT"
    | .market => "MARKET"

/-! ### Records -/

structure Position where
  account : Account
  direction : Direction
  stage : OrderStage
  pricing : OrderPricing
  entryPrice : Binary64
  executionPrice : Binary64
  size : Int64
  leverage : Int64
  initialMargin : Int64
  availableMargin : Int64
  /-- Minutes after the moment at which the statement runs. -/
  minutes : UInt64
  bankruptcyPrice : Binary64
  bankruptcyValue : Binary64
  maintenanceMargin : Binary64
  liquidationPrice : Binary64
  unrealizedProfit : Binary64
  settlementPrice : Binary64
  entryNonce : Int64
  exitNonce : Int64
  entrySequence : Int64
deriving DecidableEq

namespace Position

/-- The columns of a position, in the order of its values. -/
def columns : List String :=
  ["uuid", "account_id", "position_type", "order_status", "order_type", "entryprice",
    "execution_price", "positionsize", "leverage", "initial_margin", "available_margin", "timestamp",
    "bankruptcy_price", "bankruptcy_value", "maintenance_margin", "liquidation_price",
    "unrealized_pnl", "settlement_price", "entry_nonce", "exit_nonce", "entry_sequence"]

/-- The values of a position. The identifier is not part of the record: the database makes a new one. -/
def literals (p : Position) : List Literal :=
  [.randomUuid,
    .text (Vocabulary.label p.account),
    .text (Vocabulary.label p.direction),
    .text (Vocabulary.label p.stage),
    .text (Vocabulary.label p.pricing),
    .real p.entryPrice,
    .real p.executionPrice,
    .int p.size,
    .int p.leverage,
    .int p.initialMargin,
    .int p.availableMargin,
    .minutesFromNow p.minutes,
    .real p.bankruptcyPrice,
    .real p.bankruptcyValue,
    .real p.maintenanceMargin,
    .real p.liquidationPrice,
    .real p.unrealizedProfit,
    .real p.settlementPrice,
    .int p.entryNonce,
    .int p.exitNonce,
    .int p.entrySequence]

def tuple (p : Position) : List Char :=
  Literal.tuple p.literals

end Position

end SyntheticRows
