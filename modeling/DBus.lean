import DBus.Address
import DBus.Auth.Agree
import DBus.Auth.Context
import DBus.Auth.Fallback
import DBus.Auth.Retry
import DBus.Auth.Sound
import DBus.Body.Canonical
import DBus.Bus.Accounts
import DBus.Bus.Delivery
import DBus.Bus.RuleMatch
import DBus.Bus.Rules
import DBus.Bus.Settlement
import DBus.Byteswap.Safe
import DBus.Config.Include
import DBus.Config.Rule
import DBus.HashIter
import DBus.Hex
import DBus.Loader.Socket
import DBus.ObjectTree.Dispatch
import DBus.PendingCall
import DBus.Reader.Iterable
import DBus.Reader.Walk
import DBus.SignatureIter
import DBus.UserDatabase
import DBus.Transport
