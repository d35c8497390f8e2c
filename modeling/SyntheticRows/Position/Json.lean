import SyntheticRows.Json
import SyntheticRows.Json.Record
import SyntheticRows.Position

/-!
Positions as JSON.
-/

namespace SyntheticRows.Position

def toJson (p : Position) : Json :=
  .object
    [("account", .text (Vocabulary.label p.account)),
      ("position_type", .text (Vocabulary.label p.direction)),
      ("status", .text (Vocabulary.label p.stage)),
      ("order_type", .text (Vocabulary.label p.pricing)),
      ("entry_price", .real p.entryPrice),
      ("execution_price", .real p.executionPrice),
      ("position_size", .int p.size.toInt),
      ("leverage", .int p.leverage.toInt),
      ("initial_margin", .int p.initialMargin.toInt),
      ("available_margin", .int p.availableMargin.toInt),
      ("timestamp_offset_minutes", .int p.minutes.toNat),
      ("bankruptcy_price", .real p.bankruptcyPrice),
      ("bankruptcy_value", .real p.bankruptcyValue),
      ("maintenance_margin", .real p.maintenanceMargin),
      ("liquidation_price", .real p.liquidationPrice),
      ("unrealized_pnl", .real p.unrealizedProfit),
      ("settlement_price", .real p.settlementPrice),
      ("entry_nonce", .int p.entryNonce.toInt),
      ("exit_nonce", .int p.exitNonce.toInt),
      ("entry_sequence", .int p.entrySequence.toInt)]

open Json in
def members : Members
    [Account, Direction, OrderStage, OrderPricing, Binary64, Binary64, Int64, Int64, Int64, Int64, UInt64,
      Binary64, Binary64, Binary64, Binary64, Binary64, Binary64, Int64, Int64, Int64] :=
  .cons "account" label none <|
  .cons "position_type" label none <|
  .cons "status" label none <|
  .cons "order_type" label none <|
  .cons "entry_price" real64 none <|
  .cons "execution_price" real64 none <|
  .cons "position_size" int64 none <|
  .cons "leverage" int64 none <|
  .cons "initial_margin" int64 none <|
  .cons "available_margin" int64 none <|
  .cons "timestamp_offset_minutes" uint64 none <|
  .cons "bankruptcy_price" real64 none <|
  .cons "bankruptcy_value" real64 none <|
  .cons "maintenance_margin" real64 none <|
  .cons "liquidation_price" real64 none <|
  .cons "unrealized_pnl" real64 none <|
  .cons "settlement_price" real64 none <|
  .cons "entry_nonce" int64 none <|
  .cons "exit_nonce" int64 none <|
  .cons "entry_sequence" int64 none .nil

def fromJson : Json.Reader Position :=
  Json.record members
    fun (account, direction, stage, pricing, entryPrice, executionPrice, size, leverage, initialMargin,
        availableMargin, minutes, bankruptcyPrice, bankruptcyValue, maintenanceMargin, liquidationPrice,
        unrealizedProfit, settlementPrice, entryNonce, exitNonce, entrySequence, _) =>
      { account, direction, stage, pricing, entryPrice, executionPrice, size, leverage, initialMargin,
        availableMargin, minutes, bankruptcyPrice, bankruptcyValue, maintenanceMargin, liquidationPrice,
        unrealizedProfit, settlementPrice, entryNonce, exitNonce, entrySequence }

end SyntheticRows.Position
