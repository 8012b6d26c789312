import AsyncRustbus.Message.Basic

set_option relaxedAutoImplicit false
set_option autoImplicit false

/-!
# Building messages (`rustbus_core/message_builder/mod.rs`)

A message is started as a call and gets its header fields one by one.

## Main definitions

* `AsyncRustbus.MessageBuilder`, `AsyncRustbus.CallBuilder` with the methods that build a call.
-/

namespace AsyncRustbus

/-- `MarshalledMessage::with_byteorder`. -/
protected def MarshalledMessage.withByteorder (bo : ByteOrder) : MarshalledMessage where
  typ := .invalid
  dynheader := .default
  flags := 0
  body := .withByteorder bo

/-- `MarshalledMessage::new`. -/
protected def MarshalledMessage.new : MarshalledMessage := .withByteorder .littleEndian

/-- `MessageBuilder`. -/
structure MessageBuilder where
  msg : MarshalledMessage

/-- `CallBuilder`. -/
structure CallBuilder where
  msg : MarshalledMessage

namespace MessageBuilder

/-- `MessageBuilder::new`. -/
def new : MessageBuilder := ⟨.new⟩

/-- `MessageBuilder::call`. -/
def call (b : MessageBuilder) (member : Str) : CallBuilder :=
  ⟨{ b.msg with typ := .call, dynheader := { b.msg.dynheader with member := some member } }⟩

end MessageBuilder

namespace CallBuilder

/-- `CallBuilder::on`. -/
def on (b : CallBuilder) (objectPath : Str) : CallBuilder :=
  ⟨{ b.msg with dynheader := { b.msg.dynheader with object := some objectPath } }⟩

/-- `CallBuilder::with_interface`. -/
def withInterface (b : CallBuilder) (interface : Str) : CallBuilder :=
  ⟨{ b.msg with dynheader := { b.msg.dynheader with interface := some interface } }⟩

/-- `CallBuilder::build`. -/
def build (b : CallBuilder) : MarshalledMessage := b.msg

end CallBuilder

end AsyncRustbus
