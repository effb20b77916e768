import Ebotula.Types

/-!
# The help texts

The tables the help system reads: the texts of `irchelp.c`, and from `cmdlist.c` the
word each command is called by. Events have no help text.
-/

set_option autoImplicit false

namespace Ebotula

open Library

/-- `IrcHelp_t`. -/
structure IrcHelp where
  pIrcHelp : List CStr
  pShort : CStr
  pIrcSyntax : CStr

/-- `GetIrcHelp`. -/
def getIrcHelp : Cmd → IrcHelp
  | .cmdNone =>
    ⟨["This is the help system for using this bot.",
      "!help COMMAND for information about a special command",
      "------------------------------------------------------------------------"],
      "", "Syntax:"⟩
  | .viewGreat =>
    ⟨["Using this command you can inspect the greeting of a",
      "given channel. If no channel is given the greeting of",
      "the current channel will be viewed."],
      "shows the greeting line of a channel", "!viewgreet <#Channel>"⟩
  | .help =>
    ⟨["Displays general information about the bot and hints for",
      "using the available commands. A list of commands will be",
      "displayed too."],
      "give general help for using this bot", "!help <Command>"⟩
  | .version =>
    ⟨["Displays version and compile date of the bot."],
      "print the version information", "!version"⟩
  | .hello =>
    ⟨["Every user who wants to use the bot needs an account.",
      "Using this command you get one. Your login is the nickname",
      "you had when sending this command. REMEMBER to set a",
      "password with !passwd"],
      "creates a new account.", "!hello"⟩
  | .ident =>
    ⟨["Any user who has got an account, must identify himself",
      "before bot commands are accepted. This is done by this command."],
      "identify yourself to the bot", "!ident [Login] <Password>"⟩
  | .logoff =>
    ⟨["If you want to disconnect from the bot,",
      "you should logoff first."],
      "logoff from the bot", "!logoff"⟩
  | .pass =>
    ⟨["Selfexplaining. Change your account password (see also !help hello)",
      "or set it if you don't have one yet."],
      "change the password for the current account", "!pass <Password>"⟩
  | .invite =>
    ⟨["If a channel is set invite-only, you can only join this channel",
      "if a user in it asks you to (invites you). So if only the bot has",
      "joined the invite-only channel you can use this command to make the",
      "bot invite you so you can join."],
      "invite the user in a channel", "!invite <#channel> [nick]"⟩
  | .chanMode =>
    ⟨["Change channel modes (e.g. moderated [+m], topic protected +[t] etc.)"],
      "Set and remove the modes for a channel.",
      "!chanmod <#Channel> [+|-][tnmpsklrqa] <Limit> <Keyword>"⟩
  | .accountList =>
    ⟨["If a channel is given as parameter, all users with an account in this",
      "channel are listed. If no channel given, all users with an account in",
      "any channel are listed."],
      "print a list of users from the channel or all", "!accountlist <#Channel>"⟩
  | .accountMode =>
    ⟨["User modes are for example Channel-Operator (+o) or Voice (+v)",
      "m...Master",
      "o...Owner",
      "v...Friend"],
      "set the mode for a user", "!accountmode <#Channel> [Login] [+|-][mov]"⟩
  | .say =>
    ⟨["The bot posts the given message into this channel."],
      "send a message into a channel", "!say <#Channel> [Text]"⟩
  | .kick =>
    ⟨["Disconnects a user from the given channel"],
      "kicks a user out of the channel", "!kick <#Channel> [Nickname]"⟩
  | .setTopic =>
    ⟨["Topic is the line that can be seen near the channel name",
      "in the channel list.",
      "EXAMPLE: #LUGse -== LUGse - Linux User Group Senftenberg ==-",
      "Used to discripe a channel."],
      "sets or removes the  topic of a channel", "!topic <#Channel> [Topic]"⟩
  | .setGreating =>
    ⟨["The greeting is a message the bot sends to the channel",
      "when a user joins the channel."],
      "Sets or removes the greeting line for a channel", "!greeting <#Channel> [Text]"⟩
  | .ban =>
    ⟨["Ban means the user can't join the channel until",
      "he is debanned or changes his nick."],
      "bans a user from the channel", "!ban <#channel> [Nickname]"⟩
  | .deban =>
    ⟨["Removes an existing ban from a user so he can join the",
      "channel again he was banned from."],
      "resets the ban from a user", "!deban <#channel> [Banmask]"⟩
  | .restart =>
    ⟨["Useful if configuration is changed. By restarting config is read again."],
      "stops and restarts the bot.", "!restart"⟩
  | .allSay =>
    ⟨["Similar to SAY, but message is shown in all channels the bot has joined."],
      "sends a message to all channels", "!allsay [Text]"⟩
  | .rmUser =>
    ⟨["Selfexplaining. Accounts no longer needed can be removed this way."],
      "removes a user account of the bot", "!rmaccount [Login]"⟩
  | .nick =>
    ⟨["The given nickname is only valid until the bot is restarted."],
      "changes the nickname of the bot", "!nick [Nickname]"⟩
  | .die =>
    ⟨["The bot is stopped but unlike RESTART, DIE doesn't start",
      "the bot again."],
      "shutdown the bot.", "!die"⟩
  | .channels =>
    ⟨["Only channels the bot is within are listed."],
      "prints out a list of all channels from the bot", "!chanlist"⟩
  | .rmChannel =>
    ⟨["The bot leaves the given channel and removes it",
      "from its channel list."],
      "let the bot part and remove a old channel", "!rmchannel <#Channel>"⟩
  | .addChannel =>
    ⟨["The channel must be given as a parameter.",
      "The bot creates the channel, inserts it into his",
      "channel list and joins the channel."],
      "let the bot join and add a new channel", "!addchannel [#Channel]"⟩
  | .join =>
    ⟨["The channel must be given as a parameter and must exist",
      "before the bot joins it."],
      "let the bot join a channel", "!join [#Channel]"⟩
  | .part =>
    ⟨["The bot leaves the given channel. The channel is not",
      "removed from the bots channel list."],
      "let the bot part a channel", "!part <#Channel>"⟩
  | _ => ⟨[], "", ""⟩

/-- `CmdHandleField[id].pCmdString`. -/
def pCmdString : Cmd → CStr
  | .cmdNone => ""
  | .onPing => "PING"
  | .onQuit => "QUIT"
  | .onNickChg => "NICK"
  | .onMode => "MODE"
  | .onKick => "KICK"
  | .onJoin => "JOIN"
  | .onNames => "353"
  | .onTopic => "TOPIC"
  | .onWhois => "311"
  | .onNoNick => "401"
  | .ctcpPing => "\x01PING"
  | .ctcpVersion => "\x01VERSION\x01"
  | .ctcpTime => "\x01TIME\x01"
  | .viewGreat => "viewgreet"
  | .help => "help"
  | .version => "version"
  | .hello => "hello"
  | .ident => "ident"
  | .logoff => "logoff"
  | .pass => "pass"
  | .invite => "invite"
  | .chanMode => "chanmode"
  | .accountList => "accountlist"
  | .accountMode => "accountmode"
  | .say => "say"
  | .kick => "kick"
  | .setTopic => "topic"
  | .setGreating => "greeting"
  | .ban => "ban"
  | .deban => "deban"
  | .restart => "restart"
  | .allSay => "allsay"
  | .rmUser => "rmaccount"
  | .nick => "nick"
  | .die => "die"
  | .channels => "chanlist"
  | .rmChannel => "rmchannel"
  | .addChannel => "addchannel"
  | .join => "join"
  | .part => "part"

/-- `CmdHandleField[id].bIsCommand`. -/
def bIsCommand (id : Cmd) : Bool := decide (Cmd.others ≤ id)

end Ebotula
