import Rockling.Driver.I2c

/-!
# The DAC and CODEC drivers

`custom-bios/dac.c` and `custom-bios/codec.c`: programs over calls of the transaction functions of
`i2c.c` (`TxnIface`). All of them pass a null `err_status`.
-/

namespace Rockling

namespace Driver

/-- Calls of the transaction functions. -/
abbrev TxnIface : Signature where
  Op := Txn
  Reply _ := TxnResult

/-- The implementation of a transaction by byte commands. -/
def txnImpl (t : Txn) : Prog ByteIface TxnResult := t.prog

/-- The return value of a transaction. -/
def txn (t : Txn) : Prog TxnIface CInt := Prog.call (S := TxnIface) t fun r => Prog.ret r.ret

/-- `LO`. -/
def LO (x : CInt) : CInt := x &&& 0x00ff

/-- `HI`. -/
def HI (x : CInt) : CInt := (x &&& 0xff00) >>> 8

def DAC_I2C_ADDR : CInt := 0x60
def DAC_ID_REG : CInt := 0x1a
def DAC_ID_CMD : CInt := (DAC_ID_REG <<< 3) ||| 0x06
def CODEC_I2C_ADDR : CInt := 0x0a
def CODEC_PARTID : CInt := 0xa0
def CHIP_ANA_ADC_CTRL : CInt := 0x0020

/-- `dac_read_txn`: the transmitted byte is `aaaaa11x`. -/
def dacReadTxn (reg : CInt) : Prog TxnIface CInt :=
  txn (.read DAC_I2C_ADDR ((reg <<< 3) ||| 0x06) (-1) false)

/-- `dac_write_txn`: the first byte is `aaaaa00x`. -/
def dacWriteTxn (reg data : CInt) : Prog TxnIface CInt :=
  txn (.write DAC_I2C_ADDR (reg <<< 3) (-1) (HI data) (LO data) false)

/-- `dac_set_val`: set the channels whose value is not negative, and stop at the first error. -/
def dacSetVal (v0 v1 : CInt) : Prog TxnIface CInt := do
  if nonneg v0 then
    let ret ← dacWriteTxn 0x00 v0
    if negative ret then return ret
  if nonneg v1 then
    let ret ← dacWriteTxn 0x01 v1
    if negative ret then return ret
  return 0

/-- `codec_read_txn`. -/
def codecReadTxn (tx : CInt) : Prog TxnIface CInt :=
  txn (.read CODEC_I2C_ADDR (HI tx) (LO tx) false)

/-- `codec_write_txn`. -/
def codecWriteTxn (tx data : CInt) : Prog TxnIface CInt :=
  txn (.write CODEC_I2C_ADDR (HI tx) (LO tx) (HI data) (LO data) false)

end Driver

end Rockling
